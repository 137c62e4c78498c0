/-
  Lifter.Json — JSON values and their two written forms.

  Members of an object keep their order. The compact form has no white space outside
  texts; the pretty form puts every item and member on a line of its own, two spaces
  further in than what holds it. In a text, quotes, backslashes and control characters
  are escaped and nothing else.
-/

import Lifter.Text.Numeral

namespace Lifter

inductive Json where
  | null
  | number (n : Nat)
  | text (s : String)
  | array (items : List Json)
  | object (members : List (String × Json))
  deriving Repr

namespace Json

/-! ## Texts -/

def escapeChar (c : Char) : List Char :=
  match c with
  | '"' => ['\\', '"']
  | '\\' => ['\\', '\\']
  | '\x08' => ['\\', 'b']
  | '\t' => ['\\', 't']
  | '\n' => ['\\', 'n']
  | '\x0c' => ['\\', 'f']
  | '\r' => ['\\', 'r']
  | c => if c.toNat < 0x20 then ['\\', 'u'] ++ Text.padLeft 4 '0' (Text.hexDigits c.toNat) else [c]

def quote (s : String) : List Char := '"' :: (s.toList.flatMap escapeChar ++ ['"'])

/-! ## The compact form -/

mutual

def compact : Json → List Char
  | .null => ['n', 'u', 'l', 'l']
  | .number n => Nat.toDigits 10 n
  | .text s => quote s
  | .array items => '[' :: (compactItems items ++ [']'])
  | .object members => '\x7b' :: (compactMembers members ++ ['\x7d'])

def compactItems : List Json → List Char
  | [] => []
  | [j] => compact j
  | j :: js => compact j ++ ',' :: compactItems js

def compactMembers : List (String × Json) → List Char
  | [] => []
  | [(key, j)] => quote key ++ ':' :: compact j
  | (key, j) :: ms => quote key ++ ':' :: (compact j ++ ',' :: compactMembers ms)

end

/-! ## The pretty form -/

def newline (depth : Nat) : List Char := '\n' :: List.replicate (2 * depth) ' '

mutual

def prettyAt (depth : Nat) : Json → List Char
  | .array (j :: js) =>
    '[' :: (newline (depth + 1) ++ prettyItems (depth + 1) (j :: js) ++ newline depth ++ [']'])
  | .object (m :: ms) =>
    '\x7b' :: (newline (depth + 1) ++ prettyMembers (depth + 1) (m :: ms) ++ newline depth ++ ['\x7d'])
  | .array [] => ['[', ']']
  | .object [] => ['\x7b', '\x7d']
  | .null => ['n', 'u', 'l', 'l']
  | .number n => Nat.toDigits 10 n
  | .text s => quote s

def prettyItems (depth : Nat) : List Json → List Char
  | [] => []
  | [j] => prettyAt depth j
  | j :: js => prettyAt depth j ++ ',' :: (newline depth ++ prettyItems depth js)

def prettyMembers (depth : Nat) : List (String × Json) → List Char
  | [] => []
  | [(key, j)] => quote key ++ ':' :: ' ' :: prettyAt depth j
  | (key, j) :: ms =>
    quote key ++ ':' :: ' ' :: (prettyAt depth j ++ ',' :: (newline depth ++ prettyMembers depth ms))

end

def pretty (j : Json) : List Char := prettyAt 0 j

end Json

end Lifter
