/-
  Lifter.Proofs.Checked — decoding step by step, on a machine that refuses.

  A description refers to spaces, registers, tables and fields by position, and the
  decoder looks them up again for every instruction; it reads context values by the
  position of their field, and cuts the bytes of an encoding out of a buffer of eight.
  Here every such step is `Checked`, in the order in which the decoder takes them: a
  call whose steps all have a result is a call of the engine, and one with a breach
  would be reported as a callback that broke down (`contained`).
-/

import Lifter.Engine
import Lifter.Proofs.Machine

namespace Lifter.Checked

/-! ## Context -/

def span (r : Region) : Checked UInt64 := subtract r.last r.first

/-- The value of a field, for which every region that covers the address is measured. -/
def resolveSlot (s : ContextSlot) (a : Address) : Checked UInt32 := do
  let _ ← (s.regions.filter (·.covers a)).mapM span
  return s.resolve a

def snapshot (c : Context) (a : Address) : Checked (List UInt32) := c.slots.mapM (resolveSlot · a)

def admits (l : Language) (values : List UInt32) : List Constraint → Checked Bool
  | [] => .ok true
  | c :: cs => do
    let value ← nth values (position (·.name) l.contextFields c.field)
    if value == c.value then admits l values cs else return false

/-! ## Matching -/

/-- A space is kept by its number. -/
def space (l : Language) (id : SpaceId) : Checked Space := nth l.spaces id.index

section Matching

variable {σ : Type} [ByteSource σ]

def extend (start : Address) (bytes : List UInt8) (n : Nat) (source : σ) : Checked (Fetch σ Unit) :=
  if n ≤ bytes.length then .ok ⟨.ok (), bytes, source⟩
  else do
    window bytes.length n maxInstructionSize
    let a ← address start.space (start.offset + UInt64.ofNat bytes.length)
    match ByteSource.fill source a (n - bytes.length) with
    | (.ok more, source) => return ⟨.ok (), bytes ++ more.val, source⟩
    | (.error failure, source) => return ⟨.error (failure.error start.offset a (n - bytes.length)), bytes, source⟩

def select (l : Language) (start : Address) (values : List UInt32) :
    List Encoding → List UInt8 → σ → Checked (Fetch σ Instruction)
  | [], bytes, source => .ok ⟨.error (.noMatch start.offset), bytes, source⟩
  | e :: es, bytes, source => do
    if ← admits l values e.constraints then
      match ← extend start bytes e.length source with
      | ⟨.error err, bytes, source⟩ => return ⟨.error err, bytes, source⟩
      | ⟨.ok (), bytes, source⟩ => do
        window 0 e.length maxInstructionSize
        let w := word l.bigEndian (bytes.take e.length)
        if e.fits w then return ⟨.ok ⟨e, w, start.offset⟩, bytes, source⟩
        else select l start values es bytes source
    else select l start values es bytes source

def fetch (e : Engine σ) (offset : UInt64) : Checked (Fetch σ Instruction) := do
  let l := e.language
  let code ← space l l.codeSpace.id
  let last ← highest code
  if last < offset then return ⟨.error (.outOfSpace offset code.name), [], e.source⟩
  else
    let rest ← remainder offset l.alignment
    if rest ≠ 0 then return ⟨.error (.misaligned offset l.alignment), [], e.source⟩
    else
      let start ← address code offset
      let values ← snapshot e.context start
      select l start values l.encodings [] e.source

end Matching

/-! ## Operands -/

def extract (f : OperandField) (word : UInt64) : Checked UInt64 := do
  let shifted ← shiftRight word f.lsb
  let m ← mask f.width
  return shifted &&& m

/-- The values of all operand fields of an instruction. -/
def instantiate (i : Instruction) : Checked (List UInt64) := i.encoding.fields.mapM (extract · i.word)

section Operands

variable (l : Language) (i : Instruction) (values : List UInt64)

def operandField (f : OperandField) : Checked OperandField := lookUp (·.name) i.encoding.fields f.name

def fieldValue (f : OperandField) : Checked UInt64 := nth values (position (·.name) i.encoding.fields f.name)

def tableRegister (f : OperandField) (table : RegisterTable) : Answer Register := do
  let value ← fieldValue i values f
  let table ← lookUp (·.name) l.tables table.name
  match table.entries[value.toNat]? with
  | some (some r) => lookUp (·.name) l.registers r.name
  | _ =>
    let f ← operandField i f
    throw (.failed (.invalidOperand i.start f.name value))

def branchTarget (f : OperandField) : Checked UInt64 := do
  let f ← operandField i f
  let value ← fieldValue i values f
  let code ← space l l.codeSpace.id
  match f.kind with
  | .relative scale =>
    let distance ← signExtend value f.width
    wrap code (i.start + UInt64.ofInt (scale * distance))
  | _ => wrap code value

def fieldStorage (f : OperandField) : Answer Storage := do
  let f ← operandField i f
  let value ← fieldValue i values f
  let code ← space l l.codeSpace.id
  match f.kind with
  | .register table =>
    let r ← tableRegister l i values f table
    return r.storage
  | .immediate isSigned size =>
    let bits ← if isSigned then UInt64.ofInt <$> signExtend value f.width else pure value
    let count ← bitsOf size
    let m ← mask count
    return ⟨l.constantSpace, bits &&& m, size⟩
  | _ =>
    let target ← branchTarget l i values f
    return ⟨code, target, code.addressSize⟩

def storage (t : OperandTemplate) : Answer Storage := do
  let code ← space l l.codeSpace.id
  match t with
  | .field f => fieldStorage l i values f
  | .register r =>
    let r ← lookUp (·.name) l.registers r.name
    return r.storage
  | .constant value size => return ⟨l.constantSpace, value, size⟩
  | .temporary offset size => return ⟨l.uniqueSpace, offset, size⟩
  | .spaceNumber s => return ⟨l.constantSpace, UInt64.ofNat s.id.index, 8⟩
  | .start => return ⟨l.constantSpace, i.start, code.addressSize⟩
  | .next =>
    let offset ← wrap code (i.start + UInt64.ofNat i.length)
    return ⟨l.constantSpace, offset, code.addressSize⟩

def resolve (op : OpTemplate) : Answer ResolvedOp := do
  let output ← op.output.mapM (storage l i values)
  let inputs ← op.inputs.mapM (storage l i values)
  return ⟨op.opcode, output, inputs⟩

def semantics : Answer (List ResolvedOp) := i.encoding.ops.mapM (resolve l i values)

def fieldText (f : OperandField) : Answer String := do
  let f ← operandField i f
  let value ← fieldValue i values f
  match f.kind with
  | .register table =>
    let r ← tableRegister l i values f table
    return r.name
  | .immediate true _ =>
    let n ← signExtend value f.width
    return Instruction.signedText n
  | .immediate false _ => return Text.hex value
  | _ =>
    let target ← branchTarget l i values f
    return Text.hex target

def fragmentText : Fragment → Answer String
  | .literal text => return text
  | .field f => fieldText l i values f

def operandText : Answer String := do
  let parts ← i.encoding.operands.mapM (fragmentText l i values)
  return String.join parts

end Operands

/-! ## Calls -/

section Calls

variable {σ τ : Type} [ByteSource σ]

def varnode (l : Language) (s : Storage) : Checked Varnode := do
  let place ← space l s.space.id
  let a ← address place s.offset
  return ⟨a, s.size⟩

def microOp (l : Language) (a : Address) (op : ResolvedOp) : Checked MicroOp := do
  let output ← op.output.mapM (varnode l)
  let inputs ← op.inputs.mapM (varnode l)
  return ⟨a, op.opcode, output, inputs⟩

/-- Hands over the operations, each of which is only now made into a record. -/
def emit (l : Language) (a : Address) (sink : Sink MicroOp τ) : List ResolvedOp → τ → Checked (Option Fault × τ)
  | [], t => .ok (none, t)
  | op :: ops, t => do
    let record ← microOp l a op
    match sink.accept t record with
    | (some fault, t) => return (some fault, t)
    | (none, t) => emit l a sink ops t

def run {α : Type} (e : Engine σ) (offset : UInt64) (explain : Instruction → List UInt64 → Answer α)
    (emit : Instruction → Address → α → τ → Checked (Option Fault × τ)) (t : τ) : Checked (Call σ τ) := do
  let found ← fetch e offset
  let engine : Engine σ := { e with source := found.source, fetched := found.bytes, used := 0 }
  match found.result with
  | .error err => return ⟨.error err, engine, t⟩
  | .ok i =>
    let values ← instantiate i
    match explain i values with
    | .error (.breach b) => .error b
    | .error (.failed err) => return ⟨.error err, engine, t⟩
    | .ok parts =>
      let code ← space e.language e.language.codeSpace.id
      let a ← address code i.start
      match ← emit i a parts t with
      | (some fault, t) => return ⟨.error (.callbackFault offset fault.message), engine, t⟩
      | (none, t) => return ⟨.ok i.length, { engine with used := i.length }, t⟩

def decode (e : Engine σ) (offset : UInt64) (sink : Sink MicroOp τ) (t : τ) : Checked (Call σ τ) :=
  run e offset (semantics e.language) (fun _ a ops t => emit e.language a sink ops t) t

def disassemble (e : Engine σ) (offset : UInt64) (sink : Sink AssemblyLine τ) (t : τ) : Checked (Call σ τ) :=
  run e offset (operandText e.language)
    (fun i a text t => return sink.accept t ⟨a, i.encoding.mnemonic, text⟩) t

end Calls

/-- The result of a call, of which a breach is reported like a callback that breaks down. -/
def contained {σ τ : Type} (offset : UInt64) : Checked (Call σ τ) → Except DecodeError Nat
  | .error breach => .error (.callbackFault offset breach.message)
  | .ok call => call.result

end Lifter.Checked
