/-
  Lifter.Main — the command line.

  Reads the files that the options name, runs and prints.
-/

import Lifter.Command.Run

namespace Lifter

/-- The number of a failure. Some calls count failures down from zero. -/
def failureNumber? : IO.Error → Option UInt32
  | .noFileOrDirectory _ n _ | .permissionDenied _ n _ | .inappropriateType _ n _ | .invalidArgument _ n _ =>
    some (min n (0 - n))
  | _ => none

/-- What the system says about a file that cannot be read. -/
def failureText (e : IO.Error) : String :=
  match failureNumber? e with
  | some 2 => "No such file or directory (os error 2)"
  | some 13 => "Permission denied (os error 13)"
  | some 20 => "Not a directory (os error 20)"
  | some 21 => "Is a directory (os error 21)"
  | some 36 => "File name too long (os error 36)"
  | _ => toString e

def readFile (path : String) : IO (Except String (List UInt8)) := do
  try
    let bytes ← IO.FS.readBinFile path
    return .ok bytes.toList
  catch e => return .error (failureText e)

/-- The files that the options name, each read once. -/
def readFiles (args : List String) : IO Command.Files := do
  match Command.Options.ofArguments args with
  | .error _ => return fun _ => .error ""
  | .ok options =>
    let spec ← readFile options.spec
    let input ← readFile options.input
    return fun path => if path = options.spec then spec else input

end Lifter

def main (args : List String) : IO UInt32 := do
  let files ← Lifter.readFiles args
  let outcome := Lifter.Command.run files args
  IO.print outcome.stdout
  IO.eprint outcome.stderr
  return UInt32.ofNat outcome.code
