/-
  Lifter.Specification.Reader — the language that a description declares.

  A description is read in a fixed order: the processor itself, its spaces, all blocks
  of registers, all register tables, the first context block, and the instructions of
  the first such block. Every name is looked up among what is declared before it, so a
  language that is built has nothing left to look up. Encodings are then put in order
  of length.
-/

import Lifter.Documents
import Lifter.Language
import Lifter.Specification.Attribute
import Lifter.Specification.Template

namespace Lifter.Specification

def processorTag : String := "processor"

def constantSpaceName : String := "const"

def uniqueSpaceName : String := "unique"

/-! ## The processor -/

structure Processor where
  name : String
  bigEndian : Bool
  alignment : Nat

def readEndian (root : Element) : Result Bool :=
  match root.attribute? "endian" with
  | none => .ok false
  | some text =>
    if text = "big" then .ok true else if text = "little" then .ok false else invalid root "endian" text

def readProcessor (root : Element) : Result Processor := do
  let name ← attr root "name"
  let bigEndian ← readEndian root
  let alignment ← numberOr root "alignment" 1
  if alignment.toNat ∈ [1, 2, 4, 8] then return ⟨name, bigEndian, alignment.toNat⟩
  else invalid root "alignment" (toString alignment.toNat)

/-! ## Spaces -/

def constantSpace (bigEndian : Bool) : Space := ⟨⟨0⟩, constantSpaceName, .constant, 8, 1, bigEndian⟩

def readKind (e : Element) : Result SpaceKind :=
  let text := (e.attribute? "kind").getD "processor"
  match SpaceKind.ofName? text with
  | none => invalid e "kind" text
  | some .constant => invalid e "kind" text
  | some kind => .ok kind

def readWordSize (e : Element) : Result Nat :=
  match e.attribute? "wordsize" with
  | none => .ok 1
  | some _ => (smallNumber e "wordsize").bind fun n => if n = 0 then invalid e "wordsize" "0" else .ok n

def readSpace (bigEndian : Bool) (spaces : List Space) (e : Element) : Result Space := do
  let name ← attr e "name"
  if spaces.any (·.name == name) then .error (.duplicate .space name)
  let kind ← readKind e
  let addressSize ← (number e "size").bind (inRange e "size" 1 8)
  let wordSize ← readWordSize e
  let bigEndian ← flagOr e "bigendian" bigEndian
  return ⟨⟨spaces.length⟩, name, kind, addressSize, wordSize, bigEndian⟩

/-- The space named as the default; only a space of kind processor holds code. -/
def readCodeSpace (e : Element) (spaces : List Space) : Result Space := do
  let name ← attr e "default"
  match spaces.find? (·.name == name) with
  | none => .error (.unknownSpace name)
  | some s => if s.kind = .processor then .ok s else invalid e "default" name

/-- The space of temporaries: the declared one of that name, or a new one at the end. -/
def withUnique (bigEndian : Bool) (spaces : List Space) : List Space × Space :=
  match spaces.find? (·.name == uniqueSpaceName) with
  | some s => (spaces, s)
  | none =>
    let s : Space := ⟨⟨spaces.length⟩, uniqueSpaceName, .internal, 4, 1, bigEndian⟩
    (spaces ++ [s], s)

/-! ## Registers and tables -/

def readRegister (space : Space) (registers : RegisterStore) (e : Element) : Result Register := do
  let name ← attr e "name"
  let offset ← number e "offset"
  let size ← (number e "size").bind (inRange e "size" 1 64)
  if space.highest.toNat < offset.toNat + (size - 1) then invalid e "offset" (Text.hex offset)
  if (registers.position? name).isSome then .error (.duplicate .register name)
  return ⟨name, space, offset, size⟩

def addRegister (space : Space) (registers : RegisterStore) (e : Element) : Result RegisterStore :=
  (readRegister space registers e).map registers.add

/-- Adds a block of registers, which lie in one space. -/
def readRegisters (spaces : List Space) (registers : RegisterStore) (e : Element) : Result RegisterStore := do
  let name ← attr e "space"
  match spaces.find? (·.name == name) with
  | none => .error (.unknownSpace name)
  | some space => (e.childrenNamed "register").foldlM (addRegister space) registers

/-- A register of a table, or a reserved entry. -/
def readEntry (registers : RegisterStore) (e : Element) (word : String) : Result (Option Register) :=
  if word = "_" then .ok none
  else
    match registers.register? word with
    | none => invalid e "registers" word
    | some r => .ok (some r)

def readTable (registers : RegisterStore) (tables : List RegisterTable) (e : Element) : Result RegisterTable := do
  let name ← attr e "name"
  if tables.any (·.name == name) then .error (.duplicate .table name)
  let list ← attr e "registers"
  let entries ← (Text.words list).mapM (readEntry registers e)
  if entries.isEmpty then invalid e "registers" list
  return ⟨name, entries⟩

/-! ## Context fields -/

def readContextField (fields : List ContextField) (e : Element) : Result ContextField := do
  let name ← attr e "name"
  if fields.any (·.name == name) then .error (.duplicate .contextField name)
  let width ← (number e "width").bind (inRange e "width" 1 32)
  let default ← numberOr e "default" 0
  if capacity width ≤ default.toNat then invalid e "default" (toString default.toNat)
  return ⟨name, width, default.toUInt32⟩

/-! ## Instructions -/

/-- What instructions may refer to. -/
structure Declarations where
  spaces : List Space
  registerStore : RegisterStore
  tables : List RegisterTable
  contextFields : List ContextField

def Declarations.registers (d : Declarations) : List Register := d.registerStore.registers

/-- A fault inside the instruction with this mnemonic. -/
def within {α : Type} (mnemonic : String) (r : Except InstructionError α) : Result α :=
  r.mapError (.badInstruction mnemonic)

def readConstraint (d : Declarations) (e : Element) : Result Constraint := do
  let name ← attr e "field"
  match d.contextFields.find? (·.name == name) with
  | none => .error (.unknownContextField name)
  | some f =>
    let value ← number e "value"
    if capacity f.width ≤ value.toNat then invalid e "value" (toString value.toNat)
    return ⟨name, value.toUInt32⟩

def readScale (e : Element) : Result Int :=
  match e.attribute? "scale" with
  | none => .ok 1
  | some text =>
    match integer? text.toList with
    | none => invalid e "scale" text
    | some n => .ok n

def readFieldKind (d : Declarations) (e : Element) (width : Nat) : Result FieldKind := do
  let kind ← attr e "kind"
  if kind = "register" then
    let name ← attr e "table"
    match d.tables.find? (·.name == name) with
    | none => .error (.unknownTable name)
    | some table => return .register table
  else if kind = "immediate" then
    let size ← (numberOr e "size" (UInt64.ofNat ((width + 7) / 8))).bind (inRange e "size" 1 8)
    let isSigned ← flagOr e "signed" false
    return .immediate isSigned size
  else if kind = "relative" then
    let scale ← readScale e
    return .relative scale
  else if kind = "absolute" then return .absolute
  else invalid e "kind" kind

def readOperandField (d : Declarations) (mnemonic : String) (length : Nat) (fields : List OperandField)
    (e : Element) : Result OperandField := do
  let name ← attr e "name"
  if fields.any (·.name == name) then .error (.duplicate .operandField name)
  let lsb ← smallNumber e "lsb"
  let width ← smallNumber e "width"
  if width = 0 ∨ 8 * length < lsb + width then .error (.badInstruction mnemonic (.fieldTooWide name length))
  let kind ← readFieldKind d e width
  return ⟨name, lsb, width, kind⟩

def readOutput (d : Declarations) (mnemonic : String) (fields : List OperandField) (e : Element) :
    Result (Option OperandTemplate) :=
  match e.attribute? "out" with
  | none => .ok none
  | some text => do
    let output ← within mnemonic (readOperand d.spaces d.registerStore fields text)
    if output.isWritable then return some output
    else .error (.badInstruction mnemonic (.notWritable text))

def readOp (d : Declarations) (mnemonic : String) (fields : List OperandField) (e : Element) :
    Result OpTemplate := do
  let code ← attr e "code"
  match Opcode.ofName? code with
  | none => invalid e "code" code
  | some opcode =>
    let output ← readOutput d mnemonic fields e
    let inputs ←
      within mnemonic
        ((Text.words ((e.attribute? "in").getD "")).mapM (readOperand d.spaces d.registerStore fields))
    return ⟨opcode, output, inputs⟩

def readEncoding (d : Declarations) (e : Element) : Result Encoding := do
  let mnemonic ← attr e "mnemonic"
  let length ← (number e "length").bind (inRange e "length" 1 maxInstructionSize)
  let mask ← number e "mask"
  let bits ← number e "match"
  if capacity (8 * length) ≤ mask.toNat then .error (.badInstruction mnemonic (.maskTooWide mask length))
  if bits &&& mask != bits then .error (.badInstruction mnemonic (.matchOutsideMask bits mask))
  let constraints ← (e.childrenNamed "when").mapM (readConstraint d)
  let fields ← collect (readOperandField d mnemonic length) [] (e.childrenNamed "field")
  let operands ← within mnemonic (readOperands fields ((e.attribute? "operands").getD ""))
  let ops ← (e.childrenNamed "op").mapM (readOp d mnemonic fields)
  return ⟨mnemonic, length, mask, bits, constraints, fields, operands, ops⟩

/-- The encodings of one to eight bytes, shortest first and otherwise in the given order. -/
def byLength (encodings : List Encoding) : List Encoding :=
  (List.range' 1 maxInstructionSize).flatMap fun n => encodings.filter (·.length == n)

end Lifter.Specification

namespace Lifter

/-! ## The language -/

open Specification in
/-- The language of a processor's root element. -/
def Language.ofElement (root : Element) : Except SpecificationError Language := do
  let processor ← readProcessor root
  let spacesElement ← child root "spaces"
  let first := Specification.constantSpace processor.bigEndian
  let declared ← collect (readSpace processor.bigEndian) [first] (spacesElement.childrenNamed "space")
  let codeSpace ← readCodeSpace spacesElement declared
  let (spaces, uniqueSpace) := withUnique processor.bigEndian declared
  let registers ← (root.childrenNamed "registers").foldlM (readRegisters spaces) .empty
  let tables ← collect (readTable registers) [] (root.childrenNamed "table")
  let contextFields ←
    collect readContextField [] (((root.child? "context").map (·.childrenNamed "field")).getD [])
  let instructions ← child root "instructions"
  let encodings ←
    (instructions.childrenNamed "instruction").mapM
      (readEncoding ⟨spaces, registers, tables, contextFields⟩)
  return {
    name := processor.name
    bigEndian := processor.bigEndian
    alignment := processor.alignment
    spaces
    constantSpace := first
    codeSpace
    uniqueSpace
    registerStore := registers
    tables
    contextFields
    encodings := byLength encodings }

/-- The language of the processor among the loaded documents. -/
def Language.ofDocuments (d : Documents) : Except SpecificationError Language :=
  match d.root? Specification.processorTag with
  | none => .error (.missingRoot Specification.processorTag)
  | some root => Language.ofElement root

end Lifter
