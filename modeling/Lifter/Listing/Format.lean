/-
  Lifter.Listing.Format — the forms in which a listing is written.

  A form is read by its name, without regard to case; the third one has two more names.
-/

import Lifter.Listing.Lines
import Lifter.Listing.Plain
import Lifter.Listing.Structured
import Lifter.Text.Case

namespace Lifter

inductive OutputFormat where
  | plain
  | structured
  | lines
  deriving DecidableEq, Repr

namespace OutputFormat

/-- Every form; the first is the default. -/
def all : List OutputFormat := [.plain, .structured, .lines]

def default : OutputFormat := .plain

def name : OutputFormat → String
  | .plain => "text"
  | .structured => "json"
  | .lines => "jsonl"

def ofName? (s : String) : Option OutputFormat :=
  match Text.lower s with
  | "text" => some .plain
  | "json" => some .structured
  | "jsonl" | "jsonlines" | "json-lines" => some .lines
  | _ => none

def write : OutputFormat → Listing → String
  | .plain => Listing.plain
  | .structured => Listing.structured
  | .lines => Listing.lines

end OutputFormat

end Lifter
