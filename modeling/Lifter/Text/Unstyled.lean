/-
  Lifter.Text.Unstyled — text for a reader that is no terminal.

  Control characters other than white space are left out, and so are the control
  sequences of a terminal: an escape character with what belongs to it. A sequence may
  carry parameters, or a string that goes on until its own end mark. White space inside
  a sequence that has not come to its parameters' end is kept, and with it begins text
  again.
-/

namespace Lifter.Text

/-- What a character belongs to. -/
inductive Control where
  | none
  | escape
  | intermediate
  /-- Parameters and a final letter are to come. -/
  | sequence
  | deviceEntry
  | deviceParameter
  | deviceIntermediate
  | string
  /-- A string that a bell ends. -/
  | systemString
  deriving DecidableEq, Repr

/-- A byte of the character is the mark that ends a string. -/
def holdsStringEnd (c : Char) : Bool := (String.singleton c).toUTF8.toList.contains 0x9c

namespace Control

def afterEscape (c : Char) : Control :=
  if c < ' ' ∨ c = '\x7f' then escape
  else if c < '0' then intermediate
  else
    match c with
    | '[' => sequence
    | ']' => systemString
    | 'P' => deviceEntry
    | 'X' | '^' | '_' => string
    | _ => none

/-- What comes in front of a device string: parameters, whose characters end with `last`, and
    intermediate characters. Any other character begins the string. -/
def afterDevice (state : Control) (last : Char) (c : Char) : Control :=
  if c < ' ' ∨ c = '\x7f' then state
  else if c < '0' then deviceIntermediate
  else if c ≤ last then deviceParameter
  else string

/-- What comes after a character that is left out. -/
def next (state : Control) (c : Char) : Control :=
  if c = '\x1b' then escape
  else if c = '\x18' ∨ c = '\x1a' then none
  else if '\x7f' < c then if state = string ∧ holdsStringEnd c then none else state
  else
    match state with
    | none => none
    | escape => afterEscape c
    | intermediate => if '0' ≤ c ∧ c < '\x7f' then none else intermediate
    | sequence => if '@' ≤ c ∧ c < '\x7f' then none else sequence
    | deviceEntry => afterDevice state '?' c
    | deviceParameter => afterDevice state ';' c
    | deviceIntermediate => afterDevice state '/' c
    | string => string
    | systemString => if c = '\x07' then none else systemString

/-- White space is kept behind this. -/
def keepsSpace : Control → Bool
  | none | escape | intermediate | sequence => true
  | _ => false

end Control

def isSpacing (c : Char) : Bool := c == '\t' || c == '\n' || c == '\x0c' || c == '\r'

/-- The character is text by itself. -/
def isPrinted (c : Char) : Bool := isSpacing c || ' ' ≤ c && c != '\x7f'

/-- The characters that are left, where `inText` tells that the one before was. -/
def dropControls : (inText : Bool) → Control → List Char → List Char
  | _, _, [] => []
  | inText, state, c :: rest =>
    if (inText || state == .none) && isPrinted c || state.keepsSpace && isSpacing c then
      c :: dropControls true (if '\x7f' < c then .none else state) rest
    else dropControls false (state.next c) rest

def unstyled (s : String) : String := String.ofList (dropControls false .none s.toList)

end Lifter.Text

namespace Lifter

/-! ## Text in styles -/

/-- Text some of whose parts are in a style of their own. -/
inductive StyledText where
  | plain (text : String)
  /-- Plain text, text in a style, and what comes behind it. -/
  | styled (before text : String) (rest : StyledText)
  deriving DecidableEq, Repr

namespace StyledText

/-- Puts one text behind another; plain text next to plain text makes one part. -/
def append : StyledText → StyledText → StyledText
  | .plain a, .plain b => .plain (a ++ b)
  | .plain a, .styled before text rest => .styled (a ++ before) text rest
  | .styled before text rest, b => .styled before text (rest.append b)

instance : Append StyledText := ⟨append⟩

/-- The text without its styles. A change of style is a control sequence, and with it ends what the
    part in front leaves open. -/
def unstyled : StyledText → String
  | .plain text => Text.unstyled text
  | .styled before text rest => Text.unstyled before ++ Text.unstyled text ++ rest.unstyled

end StyledText

end Lifter
