/-
  Lifter.Xml.Char — the character classes of XML 1.0.

  A document holds no control character but tab, line feed and carriage return, and
  no noncharacter U+FFFE or U+FFFF. Names start with a letter of the standard's list,
  a colon or an underscore, and go on with these, digits, hyphens, full stops and
  combining marks.
-/

namespace Lifter.Xml

def isSpace (c : Char) : Bool := c == ' ' || c == '\t' || c == '\n' || c == '\r'

def isAllowed (c : Char) : Bool :=
  if c.toNat < 0x20 then isSpace c else c.toNat != 0xFFFE && c.toNat != 0xFFFF

/-- Code points outside ASCII that may start a name. -/
def nameStartRanges : List (Nat × Nat) :=
  [(0xC0, 0xD6), (0xD8, 0xF6), (0xF8, 0x2FF), (0x370, 0x37D), (0x37F, 0x1FFF), (0x200C, 0x200D),
   (0x2070, 0x218F), (0x2C00, 0x2FEF), (0x3001, 0xD7FF), (0xF900, 0xFDCF), (0xFDF0, 0xFFFD),
   (0x10000, 0xEFFFF)]

def isNameStart (c : Char) : Bool :=
  c.isAlpha || c == ':' || c == '_' || nameStartRanges.any fun r => r.1 ≤ c.toNat && c.toNat ≤ r.2

def isNamePart (c : Char) : Bool :=
  isNameStart c || c.isDigit || c == '-' || c == '.' || c.toNat == 0xB7 ||
    (0x300 ≤ c.toNat && c.toNat ≤ 0x36F) || c.toNat == 0x203F || c.toNat == 0x2040

end Lifter.Xml
