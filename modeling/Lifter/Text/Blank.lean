/-
  Lifter.Text.Blank — white space, trimming and words.

  A character is blank if it has the Unicode property White_Space: 25 code points,
  of which the ASCII ones are tab to carriage return and the space. Trimming takes
  blanks off both ends; the words of a text are its longest runs of other
  characters, in order.
-/

namespace Lifter.Text

def isBlank (c : Char) : Bool :=
  let n := c.toNat
  (0x09 ≤ n && n ≤ 0x0D) || n == 0x20 || n == 0x85 || n == 0xA0 || n == 0x1680 ||
    (0x2000 ≤ n && n ≤ 0x200A) || n == 0x2028 || n == 0x2029 || n == 0x202F || n == 0x205F ||
    n == 0x3000

def trimLeft (cs : List Char) : List Char := cs.dropWhile isBlank

def trimRight (cs : List Char) : List Char := (cs.reverse.dropWhile isBlank).reverse

def trim (cs : List Char) : List Char := trimRight (trimLeft cs)

/-- The words of `cs`, where `pending` holds the letters of an unfinished word, last first. -/
def wordsFrom (pending : List Char) : List Char → List (List Char)
  | [] => if pending.isEmpty then [] else [pending.reverse]
  | c :: cs =>
    if isBlank c then
      if pending.isEmpty then wordsFrom [] cs else pending.reverse :: wordsFrom [] cs
    else wordsFrom (c :: pending) cs

def words (s : String) : List String := (wordsFrom [] s.toList).map String.ofList

/-! ## Blanks of core's own class -/

theorem isBlank_of_isWhitespace {c : Char} (h : c.isWhitespace = true) : isBlank c = true := by
  simp only [Char.isWhitespace, Bool.or_eq_true, decide_eq_true_eq] at h
  rcases h with ((rfl | rfl) | rfl) | rfl <;> decide

end Lifter.Text
