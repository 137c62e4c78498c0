/-
  Lifter.Engine — decoding one instruction at a time.

  An offset has to lie in the code space and to be aligned. The encodings that the
  context at that offset admits are then tried in order, each on the bytes it needs:
  bytes are asked for only when an encoding is longer than what has been read. The
  first encoding that fits is the instruction. Its operands are all resolved before
  anything is handed over, so a call that fails without a fault hands over nothing. A
  source or sink that breaks down ends the call with an error like any other.
-/

import Lifter.ByteSource
import Lifter.Instruction
import Lifter.Sink

namespace Lifter

structure Engine (σ : Type) where
  source : σ
  language : Language
  context : Context
  /-- The bytes that the latest call read. -/
  fetched : List UInt8
  /-- How many of them are its instruction, none if it failed. -/
  used : Nat

/-- A result, and the source and bytes read on the way to it. -/
structure Fetch (σ α : Type) where
  result : Except DecodeError α
  bytes : List UInt8
  source : σ

/-- What a call leaves: its result, the engine and the sink. -/
structure Call (σ τ : Type) where
  result : Except DecodeError Nat
  engine : Engine σ
  sink : τ

/-! ## Matching -/

/-- The field has the value. A context of a language has the fields of the language, in their order, so that
    the name of a field stands for its position; a store with other fields is no context for it, and a search
    by position breaks down there or reads another field. -/
def Constraint.holds (c : Constraint) (context : Context) (a : Address) : Bool :=
  context.value? c.field a == some c.value

def Encoding.isAdmitted (e : Encoding) (context : Context) (a : Address) : Bool :=
  e.constraints.all (·.holds context a)

section Matching

variable {σ : Type} [ByteSource σ]

/-- The error for a request at `a` that failed in a call at `start`. -/
def SourceFailure.error (start : UInt64) (a : Address) (n : Nat) : SourceFailure → DecodeError
  | .refused cause => .byteSource a.offset n cause
  | .broke fault => .callbackFault start fault.message

/-- Reads on until there are `n` bytes from `start`. -/
def extend (start : Address) (bytes : List UInt8) (n : Nat) (source : σ) : Fetch σ Unit :=
  if n ≤ bytes.length then ⟨.ok (), bytes, source⟩
  else
    let a := start.advance (UInt64.ofNat bytes.length)
    match ByteSource.fill source a (n - bytes.length) with
    | (.ok more, source) => ⟨.ok (), bytes ++ more.val, source⟩
    | (.error failure, source) =>
      ⟨.error (failure.error start.offset a (n - bytes.length)), bytes, source⟩

/-- The first of the encodings that fits. -/
def select (bigEndian : Bool) (start : Address) :
    List Encoding → List UInt8 → σ → Fetch σ Instruction
  | [], bytes, source => ⟨.error (.noMatch start.offset), bytes, source⟩
  | e :: es, bytes, source =>
    match extend start bytes e.length source with
    | ⟨.error err, bytes, source⟩ => ⟨.error err, bytes, source⟩
    | ⟨.ok (), bytes, source⟩ =>
      let w := word bigEndian (bytes.take e.length)
      if e.fits w then ⟨.ok ⟨e, w, start.offset⟩, bytes, source⟩
      else select bigEndian start es bytes source

end Matching

namespace Engine

variable {σ τ : Type}

def ofLanguage (source : σ) (language : Language) : Engine σ :=
  ⟨source, language, .ofFields language.contextFields, [], 0⟩

/-- The bytes of the instruction that the latest call decoded, none if it failed. -/
def lastBytes (e : Engine σ) : List UInt8 := e.fetched.take e.used

variable [ByteSource σ]

/-- The instruction at `offset`. -/
def fetch (e : Engine σ) (offset : UInt64) : Fetch σ Instruction :=
  let l := e.language
  if l.codeSpace.highest < offset then ⟨.error (.outOfSpace offset l.codeSpace.name), [], e.source⟩
  else if offset.toNat % l.alignment ≠ 0 then ⟨.error (.misaligned offset l.alignment), [], e.source⟩
  else
    let a := l.codeAddress offset
    select l.bigEndian a (l.encodings.filter (·.isAdmitted e.context a)) [] e.source

/-- Fetches the instruction at `offset` and hands over what `explain` makes of it. -/
def run {α : Type} (e : Engine σ) (offset : UInt64) (explain : Instruction → Except DecodeError (List α))
    (sink : Sink α τ) (t : τ) : Call σ τ :=
  let found := e.fetch offset
  let engine : Engine σ := { e with source := found.source, fetched := found.bytes, used := 0 }
  match found.result with
  | .error err => ⟨.error err, engine, t⟩
  | .ok i =>
    match explain i with
    | .error err => ⟨.error err, engine, t⟩
    | .ok records =>
      match sink.deliver records t with
      | (some fault, t) => ⟨.error (.callbackFault offset fault.message), engine, t⟩
      | (none, t) => ⟨.ok i.length, { engine with used := i.length }, t⟩

/-- The micro-operations of an instruction, as they are handed over. -/
def microOps (l : Language) (i : Instruction) : Except DecodeError (List MicroOp) :=
  (i.semantics l).map fun ops => ops.map fun op =>
    ⟨l.codeAddress i.start, op.opcode, op.output.map (·.varnode), op.inputs.map (·.varnode)⟩

/-- The one line of an instruction. -/
def assembly (l : Language) (i : Instruction) : Except DecodeError (List AssemblyLine) :=
  (i.operandText l).map fun text => [⟨l.codeAddress i.start, i.encoding.mnemonic, text⟩]

/-- Decodes the instruction at `offset` to micro-operations. The result is its length. -/
def decode (e : Engine σ) (offset : UInt64) (sink : Sink MicroOp τ) (t : τ) : Call σ τ :=
  e.run offset (microOps e.language) sink t

/-- Decodes the instruction at `offset` to a line of text. The result is its length. -/
def disassemble (e : Engine σ) (offset : UInt64) (sink : Sink AssemblyLine τ) (t : τ) : Call σ τ :=
  e.run offset (assembly e.language) sink t

/-! ## Around decoding -/

def rebase (e : Engine σ) (delta : Int64) : Engine σ :=
  { e with source := ByteSource.rebase e.source delta }

end Engine

namespace Engine

variable {σ : Type}

/-- The storage of a register, at its address. -/
def register? (e : Engine σ) (name : String) : Option Varnode :=
  (e.language.register? name).map (·.storage.varnode)

/-- Gives a context field a value from `offset` of the code space on. -/
def setContext (e : Engine σ) (name : String) (offset : UInt64) (value : UInt32) :
    Except ContextError (Engine σ) :=
  (e.context.setFrom name (e.language.codeAddress offset) value).map ({ e with context := · })

/-- Gives a context field a value from `first` up to `stop` in the code space. -/
def setContextRange (e : Engine σ) (name : String) (first stop : UInt64) (value : UInt32) :
    Except ContextError (Engine σ) :=
  (e.context.setRange name (e.language.codeAddress first) (e.language.codeAddress stop) value).map
    ({ e with context := · })

def contextValue (e : Engine σ) (name : String) (offset : UInt64) : Except ContextError UInt32 :=
  e.context.get name (e.language.codeAddress offset)

end Engine

end Lifter
