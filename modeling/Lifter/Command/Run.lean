/-
  Lifter.Command.Run — the whole program, given the contents of files.

  The description is read first, then the program image; the language, the context
  defaults and the listing follow. The first failure ends the run. Bad arguments end it
  with code 2, any other failure with code 1.
-/

import Lifter.Command.Arguments
import Lifter.Image.Flat
import Lifter.Image.Load
import Lifter.Listing.Sweep
import Lifter.Specification.Reader

namespace Lifter.Command

/-- Why a run fails, behind good arguments. -/
inductive RunError where
  | unreadableSpec (path cause : String)
  | document (cause : DocumentError)
  | unreadableImage (cause : String)
  | image (cause : ImageError)
  | nothingToRun (path : String)
  | specification (cause : SpecificationError)
  | context (cause : ContextError)

/-- The message, and the cause if it is another failure's. -/
def RunError.parts : RunError → String × Option String
  | .unreadableSpec path cause => (s!"reading specification {path}", some cause)
  | .document cause => (cause.message, none)
  | .unreadableImage cause => (s!"I/O error: {cause}", some cause)
  | .image cause => (cause.message, none)
  | .nothingToRun path => (s!"{path} has no executable section", none)
  | .specification cause => (cause.message, none)
  | .context cause => (cause.message, none)

def RunError.report (e : RunError) : String :=
  match e.parts with
  | (message, none) => s!"Error: {message}\n"
  | (message, some cause) => s!"Error: {message}\n\nCaused by:\n    {cause}\n"

structure Outcome where
  code : Nat
  stdout : String
  stderr : String
  deriving DecidableEq, Repr

/-- Contents of files by path, or why one cannot be read. -/
abbrev Files := String → Except String (List UInt8)

def readText (files : Files) (path : String) : Except String String := do
  let bytes ← files path
  match Binary.utf8? bytes with
  | none => .error "stream did not contain valid UTF-8"
  | some text => return text

/-- The first address of a program file to decode, unless the options say otherwise. -/
def firstAddress? (image : SegmentedImage) : Option UInt64 :=
  (image.executableSegments.head?.map (·.address)).or image.entry

def Assignment.apply (context : Context) (a : Assignment) : Except RunError Context :=
  (context.setDefault a.name a.value).mapError .context

/-- The listing of a program in a source. -/
def list {σ : Type} [ByteSource σ] (options : Options) (documents : Documents) (source : σ)
    (first : UInt64) : Except RunError Listing := do
  let language ← (Language.ofDocuments documents).mapError .specification
  let engine := Engine.ofLanguage source language
  let context ← options.context.foldlM Assignment.apply engine.context
  let engine := { engine with context }
  return (engine.sweep (options.start.getD first) options.count options.ops).1

def listing (files : Files) (options : Options) : Except RunError Listing := do
  let text ← (readText files options.spec).mapError (.unreadableSpec options.spec)
  let documents ← (Documents.empty.load text).mapError .document
  let bytes ← (files options.input).mapError .unreadableImage
  if options.raw then list options documents (⟨options.base, bytes⟩ : FlatImage) options.base
  else
    let image ← (SegmentedImage.ofFile bytes).mapError .image
    match firstAddress? image with
    | none => .error (.nothingToRun options.input)
    | some first => list options documents image first

def run (files : Files) (args : List String) : Outcome :=
  match Options.ofArguments args with
  | .error e => ⟨2, "", e.report⟩
  | .ok options =>
    match listing files options with
    | .error e => ⟨1, "", e.report⟩
    | .ok listing => ⟨0, options.format.write listing, ""⟩

end Lifter.Command
