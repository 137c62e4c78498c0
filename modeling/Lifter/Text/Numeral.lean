/-
  Lifter.Text.Numeral — reading and writing unsigned 64-bit numbers.

  A digit string is read from the left, in base ten or sixteen, with at most one
  plus sign before it; it stops at the first character that is no digit and at the
  first digit that takes the value past 64 bits, whichever comes first. Numbers are
  written in lower case hexadecimal behind `0x`, padded with zeros where a column
  asks for it.
-/

namespace Lifter.Text

inductive NumeralError where
  | empty
  | invalidDigit
  | tooLarge
  deriving DecidableEq, Repr

def NumeralError.message : NumeralError → String
  | .empty => "cannot parse integer from empty string"
  | .invalidDigit => "invalid digit found in string"
  | .tooLarge => "number too large to fit in target type"

/-! ## Reading -/

/-- The value of a digit of either case, if it is below `radix`. -/
def digit? (radix : Nat) (c : Char) : Option Nat :=
  let n := c.toNat
  let d :=
    if 48 ≤ n ∧ n ≤ 57 then n - 48
    else if 97 ≤ n ∧ n ≤ 102 then n - 87
    else if 65 ≤ n ∧ n ≤ 70 then n - 55
    else radix
  if d < radix then some d else none

/-- Reads `cs` behind digits worth `value`. -/
def readDigits (radix : Nat) : List Char → Nat → Except NumeralError Nat
  | [], value => .ok value
  | c :: cs, value =>
    match digit? radix c with
    | none => .error .invalidDigit
    | some d =>
      if radix * value + d < UInt64.size then readDigits radix cs (radix * value + d)
      else .error .tooLarge

def readUnsigned (radix : Nat) : List Char → Except NumeralError UInt64
  | [] => .error .empty
  | ['+'] => .error .invalidDigit
  | '+' :: c :: cs => (readDigits radix (c :: cs) 0).map UInt64.ofNat
  | c :: cs => (readDigits radix (c :: cs) 0).map UInt64.ofNat

/-- Base sixteen behind `0x` or `0X`, base ten otherwise. -/
def readNumber : List Char → Except NumeralError UInt64
  | '0' :: 'x' :: cs => readUnsigned 16 cs
  | '0' :: 'X' :: cs => readUnsigned 16 cs
  | cs => readUnsigned 10 cs

/-! ## Writing -/

def padLeft (width : Nat) (fill : Char) (cs : List Char) : List Char :=
  List.replicate (width - cs.length) fill ++ cs

def padRight (width : Nat) (s : String) : String :=
  s ++ String.ofList (List.replicate (width - s.length) ' ')

def hexDigits (n : Nat) : List Char := Nat.toDigits 16 n

def hexNat (n : Nat) : String := "0x" ++ String.ofList (hexDigits n)

def hex (n : UInt64) : String := hexNat n.toNat

/-- At least `width` hexadecimal digits, without a mark. -/
def hexColumn (width : Nat) (n : UInt64) : String :=
  String.ofList (padLeft width '0' (hexDigits n.toNat))

def hexByte (b : UInt8) : String := String.ofList (padLeft 2 '0' (hexDigits b.toNat))

/-- Two digits a byte, with a space between bytes. -/
def hexBytes (bytes : List UInt8) : String := " ".intercalate (bytes.map hexByte)

end Lifter.Text
