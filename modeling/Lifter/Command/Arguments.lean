/-
  Lifter.Command.Arguments — what the command line asks for.

  An option's value follows it as the next argument or, behind an equals sign, in the
  same one; behind a short option the sign may be missing. What starts with a hyphen is
  never a value. Behind `--` there are no more options. An option other than
  `--context` may be given once.

  A value that is an argument of its own is looked at when the next argument is
  accepted, or at the end; so an argument that is no option of this program is
  reported before a bad value in front of it.
-/

import Lifter.Listing.Format
import Lifter.Text.Blank
import Lifter.Text.Numeral
import Lifter.Text.Unstyled

namespace Lifter.Command

/-- Something that takes a value. -/
inductive Parameter where
  | spec
  | input
  | base
  | start
  | count
  | format
  | context
  deriving DecidableEq, Repr

inductive Switch where
  | raw
  | ops
  deriving DecidableEq, Repr

def Parameter.label : Parameter → String
  | .spec => "--spec <SPEC>"
  | .input => "<INPUT>"
  | .base => "--base <BASE>"
  | .start => "--start <START>"
  | .count => "--count <COUNT>"
  | .format => "--format <FORMAT>"
  | .context => "--context <CONTEXT>"

def Switch.label : Switch → String
  | .raw => "--raw"
  | .ops => "--pcode"

inductive UsageError where
  | unexpectedArgument (text : String)
  | unexpectedValue (option : String)
  | missingValue (option : String)
  | repeated (option : String)
  | invalidValue (value : String) (parameter : Parameter) (reason : Option String)
  | missingParameter (parameter : Parameter)
  deriving DecidableEq, Repr

/-- The names of the formats, which stand for a reason where one is asked for. -/
def possibleFormats : StyledText :=
  .styled "\n  [possible values: " "text" <| .styled ", " "json" <| .styled ", " "json-lines" <| .plain "]"

def UsageError.message : UsageError → StyledText
  | .unexpectedArgument text => .styled "unexpected argument '" text <| .plain "' found"
  | .unexpectedValue option => .styled "the option '" option <| .plain "' takes no value"
  | .missingValue option => .styled "a value is required for '" option <| .plain "' but none was supplied"
  | .repeated option => .styled "the argument '" option <| .plain "' cannot be used multiple times"
  | .invalidValue value parameter reason =>
    (.styled "invalid value '" value <| .styled "' for '" parameter.label <| .plain "'") ++
      match reason with
      | some reason => .plain (": " ++ reason)
      | none => possibleFormats
  | .missingParameter parameter =>
    .styled "the required argument '" parameter.label <| .plain "' was not provided"

/-- Where to find help. It is one text with the message, so that a control sequence at the message's
    end takes from it what it still lacks. -/
def helpHint : StyledText := .styled "\n\nFor more information, try '" "--help" <| .plain "'.\n"

def UsageError.report (e : UsageError) : String := (.plain "error: " ++ e.message ++ helpHint).unstyled

/-! ## Values -/

/-- A number in decimal or, behind `0x`, in hexadecimal, with white space around it. -/
def readAddress (s : String) : Except String UInt64 :=
  (Text.readNumber (Text.trim s.toList)).mapError fun e => s!"bad number '{s}': {e.message}"

/-- A context field and the value it is given. -/
structure Assignment where
  name : String
  value : UInt32
  deriving DecidableEq, Repr

def readAssignment (s : String) : Except String Assignment :=
  match s.toList.span (· != '=') with
  | (_, []) => .error s!"expected NAME=VALUE, got '{s}'"
  | (name, _ :: value) =>
    match readAddress (String.ofList value) with
    | .error e => .error e
    | .ok n =>
      if n.toNat < UInt32.size then .ok ⟨String.ofList (Text.trim name), n.toUInt32⟩
      else .error s!"context value too large: {n.toNat}"

def formatOfName? : String → Option OutputFormat
  | "text" => some .plain
  | "json" => some .structured
  | "json-lines" => some .lines
  | _ => none

/-! ## Settings -/

structure Settings where
  spec : Option String
  input : Option String
  base : Option UInt64
  start : Option UInt64
  count : Option UInt64
  format : Option OutputFormat
  raw : Bool
  ops : Bool
  context : List Assignment
  deriving Repr

namespace Settings

def empty : Settings := ⟨none, none, none, none, none, none, false, false, []⟩

/-- What is put in, if the place is free. -/
def once {α : Type} (p : Parameter) (place : Option α) (value : Except UsageError α) :
    Except UsageError (Option α) :=
  if place.isSome then .error (.repeated p.label) else value.map some

def path (p : Parameter) (value : String) : Except UsageError String :=
  if value.isEmpty then .error (.missingValue p.label) else .ok value

def checked {α : Type} (p : Parameter) (value : String) (r : Except String α) : Except UsageError α :=
  r.mapError fun reason => .invalidValue value p (some reason)

def formatValue (value : String) : Except UsageError OutputFormat :=
  if value.isEmpty then .error (.missingValue Parameter.format.label)
  else
    match formatOfName? value with
    | none => .error (.invalidValue value .format none)
    | some f => .ok f

def countValue (value : String) : Except UsageError UInt64 :=
  checked .count value ((Text.readUnsigned 10 value.toList).mapError (·.message))

def set (s : Settings) (p : Parameter) (value : String) : Except UsageError Settings :=
  match p with
  | .spec => (once p s.spec (path p value)).map ({ s with spec := · })
  | .input => (once p s.input (path p value)).map ({ s with input := · })
  | .base => (once p s.base (checked p value (readAddress value))).map ({ s with base := · })
  | .start => (once p s.start (checked p value (readAddress value))).map ({ s with start := · })
  | .count => (once p s.count (countValue value)).map ({ s with count := · })
  | .format => (once p s.format (formatValue value)).map ({ s with format := · })
  | .context =>
    (checked p value (readAssignment value)).map fun a => { s with context := s.context ++ [a] }

def turnOn (s : Settings) : Switch → Except UsageError Settings
  | .raw => if s.raw then .error (.repeated Switch.raw.label) else .ok { s with raw := true }
  | .ops => if s.ops then .error (.repeated Switch.ops.label) else .ok { s with ops := true }

end Settings

/-! ## Arguments -/

/-- What one argument is. -/
inductive Argument where
  | switch (s : Switch)
  /-- An option whose value is still to come. -/
  | option (p : Parameter)
  | optionWith (p : Parameter) (value : String)
  | value (text : String)
  | endOfOptions
  deriving DecidableEq, Repr

def longParameter? : String → Option Parameter
  | "spec" => some .spec
  | "base" => some .base
  | "start" => some .start
  | "count" => some .count
  | "format" => some .format
  | "context" => some .context
  | _ => none

def shortParameter? : Char → Option Parameter
  | 's' => some .spec
  | 'n' => some .count
  | 'f' => some .format
  | _ => none

def switch? : String → Option Switch
  | "raw" => some .raw
  | "pcode" => some .ops
  | _ => none

/-- A long option, given without its hyphens. -/
def classifyLong (text : String) (body : List Char) : Except UsageError Argument :=
  let (name, rest) := body.span (· != '=')
  let name := String.ofList name
  match longParameter? name, switch? name, rest with
  | some p, _, [] => .ok (.option p)
  | some p, _, _ :: value => .ok (.optionWith p (String.ofList value))
  | none, some s, [] => .ok (.switch s)
  | none, some s, _ :: _ => .error (.unexpectedValue s.label)
  | none, none, _ => .error (.unexpectedArgument text)

/-- A short option, given without its hyphen. -/
def classifyShort (text : String) (c : Char) (rest : List Char) : Except UsageError Argument :=
  match shortParameter? c, rest with
  | none, _ => .error (.unexpectedArgument text)
  | some p, [] => .ok (.option p)
  | some p, '=' :: value => .ok (.optionWith p (String.ofList value))
  | some p, value => .ok (.optionWith p (String.ofList value))

def classify (text : String) : Except UsageError Argument :=
  match text.toList with
  | ['-', '-'] => .ok .endOfOptions
  | '-' :: '-' :: body => classifyLong text body
  | '-' :: c :: rest => classifyShort text c rest
  | _ => .ok (.value text)

/-- How far the arguments have been read. -/
structure Reading where
  settings : Settings
  /-- A value that has not been looked at yet. -/
  pending : Option (Parameter × String)
  /-- The input has been named. -/
  hasInput : Bool
  onlyValues : Bool

namespace Reading

def start : Reading := ⟨.empty, none, false, false⟩

/-- Looks at the pending value. -/
def settle (r : Reading) : Except UsageError Reading :=
  match r.pending with
  | none => .ok r
  | some (p, value) => (r.settings.set p value).map ({ r with settings := ·, pending := none })

/-- An argument that is not the value of an option is the input, of which there is one. -/
def takeInput (r : Reading) (text : String) : Except UsageError Reading :=
  if r.hasInput then .error (.unexpectedArgument text)
  else r.settle.map ({ · with pending := some (.input, text), hasInput := true })

end Reading

/-- Reads the arguments from left to right. -/
def readArguments : Reading → List String → Except UsageError Settings
  | r, [] => r.settle.map (·.settings)
  | r, text :: rest => do
    if r.onlyValues then readArguments (← r.takeInput text) rest
    else
      match ← classify text with
      | .endOfOptions => readArguments { r with onlyValues := true } rest
      | .value text => readArguments (← r.takeInput text) rest
      | .switch s =>
        let r ← r.settle
        readArguments { r with settings := ← r.settings.turnOn s } rest
      | .optionWith p value =>
        let r ← r.settle
        readArguments { r with settings := ← r.settings.set p value } rest
      | .option p =>
        let r ← r.settle
        match rest with
        | [] => .error (.missingValue p.label)
        | next :: rest =>
          match ← classify next with
          | .value value => readArguments { r with pending := some (p, value) } rest
          | _ => .error (.missingValue p.label)

/-! ## Options -/

/-- The options of a run, with their defaults filled in. -/
structure Options where
  spec : String
  input : String
  raw : Bool
  base : UInt64
  start : Option UInt64
  count : Nat
  format : OutputFormat
  ops : Bool
  context : List Assignment
  deriving Repr

def Options.ofSettings (s : Settings) : Except UsageError Options :=
  match s.spec, s.input with
  | none, _ => .error (.missingParameter .spec)
  | _, none => .error (.missingParameter .input)
  | some spec, some input =>
    .ok {
      spec
      input
      raw := s.raw
      base := s.base.getD 0
      start := s.start
      count := (s.count.getD 32).toNat
      format := s.format.getD OutputFormat.default
      ops := s.ops
      context := s.context }

def Options.ofArguments (args : List String) : Except UsageError Options :=
  (readArguments .start args).bind Options.ofSettings

end Lifter.Command
