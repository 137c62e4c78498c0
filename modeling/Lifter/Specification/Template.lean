/-
  Lifter.Specification.Template — operand texts and operand expressions.

  In an operand text a field's name stands in braces and all else is literal. An
  operand expression is `#value:size` for a constant, `$offset:size` for a temporary,
  `@name` for the number of a space, `inst_start` or `inst_next`, or else the name of
  an operand field or, if there is no such field, of a register.
-/

import Lifter.RegisterStore
import Lifter.Specification.Error
import Lifter.Specification.Number

namespace Lifter.Specification

/-! ## Operand texts -/

/-- Where a scan of an operand text is, with the characters since then, last first. -/
inductive Scan where
  | text (seen : List Char)
  | name (seen : List Char)

/-- A literal of these characters, last first, unless there are none. -/
def literal (seen : List Char) : List Fragment :=
  if seen.isEmpty then [] else [.literal (String.ofList seen.reverse)]

def scanOperands (fields : List OperandField) (operands : String) :
    Scan → List Char → Except InstructionError (List Fragment)
  | .text seen, [] => .ok (literal seen)
  | .name _, [] => .error (.unclosedPlaceholder operands)
  | .text seen, c :: cs =>
    if c = '\x7b' then (scanOperands fields operands (.name []) cs).map (literal seen ++ ·)
    else scanOperands fields operands (.text (c :: seen)) cs
  | .name seen, c :: cs =>
    if c = '\x7d' then
      let name := String.ofList seen.reverse
      match fields.find? (·.name == name) with
      | none => .error (.unknownPlaceholder name)
      | some f => (scanOperands fields operands (.text []) cs).map (.field f :: ·)
    else scanOperands fields operands (.name (c :: seen)) cs

def readOperands (fields : List OperandField) (operands : String) : Except InstructionError (List Fragment) :=
  scanOperands fields operands (.text []) operands.toList

/-! ## Operand expressions -/

/-- A value and a size of one to eight bytes, with a colon between them. -/
def readSized (expression : String) (cs : List Char) : Except InstructionError (Int × Nat) :=
  match cs.span (· != ':') with
  | (_, []) => .error (.sizeMissing expression)
  | (value, _ :: size) =>
    match integer? value with
    | none => .error (.badValue expression)
    | some value =>
      match number? size with
      | none => .error (.badSize expression)
      | some size =>
        if 1 ≤ size.toNat ∧ size.toNat ≤ 8 then .ok (value, size.toNat) else .error (.badSize expression)

def readNamed (fields : List OperandField) (registers : RegisterStore) (expression : String) :
    Except InstructionError OperandTemplate :=
  if expression = "inst_start" then .ok .start
  else if expression = "inst_next" then .ok .next
  else
    match fields.find? (·.name == expression) with
    | some f => .ok (.field f)
    | none =>
      match registers.register? expression with
      | some r => .ok (.register r)
      | none => .error (.unknownOperand expression)

def readOperand (spaces : List Space) (registers : RegisterStore) (fields : List OperandField)
    (expression : String) : Except InstructionError OperandTemplate :=
  match expression.toList with
  | '#' :: body =>
    (readSized expression body).map fun r => .constant (UInt64.ofInt r.1 &&& lowMask (8 * r.2)) r.2
  | '$' :: body =>
    match readSized expression body with
    | .error err => .error err
    | .ok (offset, size) =>
      if offset < 0 then .error (.negativeTemporary expression) else .ok (.temporary (UInt64.ofInt offset) size)
  | '@' :: body =>
    let name := String.ofList body
    match spaces.find? (·.name == name) with
    | none => .error (.unknownSpace name)
    | some s => .ok (.spaceNumber s)
  | _ => readNamed fields registers expression

end Lifter.Specification
