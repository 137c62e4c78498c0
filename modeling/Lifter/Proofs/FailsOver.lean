/-
  Lifter.Proofs.FailsOver — the field over which an instruction fails.

  A register field selects nothing if its value is past its table or stands at a reserved
  slot of it; nothing else about an operand can fail. `FailsOver` says of a computation
  which fields it goes through, and in which order: it fails just if one of them selects
  nothing, over the first that does. It is kept by everything that operands are put
  together with, so that it holds of the micro-operations, which go through the output of
  each before its inputs (`Engine.microOps_failsOver`), and of the text, which goes
  through its placeholders (`Engine.assembly_failsOver`).
-/

import Lifter.Engine
import Lifter.Proofs.Results

namespace Lifter

open Specification

/-! ## Fields that an instruction goes through -/

def Fragment.field? : Fragment → Option OperandField
  | .literal _ => none
  | .field f => some f

def OperandTemplate.field? : OperandTemplate → Option OperandField
  | .field f => some f
  | _ => none

/-- The output, if any, and the inputs. -/
def OpTemplate.operands (t : OpTemplate) : List OperandTemplate := t.output.toList ++ t.inputs

namespace Encoding

/-- The fields in the operand text. -/
def printedFields (e : Encoding) : List OperandField := e.operands.filterMap (·.field?)

/-- The fields in the micro-operations. -/
def opFields (e : Encoding) : List OperandField := e.ops.flatMap fun t => t.operands.filterMap (·.field?)

end Encoding

/-! ## Fields that select nothing -/

namespace Instruction

variable {i : Instruction} {l : Language} {f : OperandField} {err : DecodeError}

/-- A register field whose value is reserved or past its table. -/
def SelectsNothing (i : Instruction) (f : OperandField) : Prop :=
  ∃ table, f.kind = .register table ∧ ∀ r, table.entries[(f.extract i.word).toNat]? ≠ some (some r)

/-- The same, decided: the value is past the table, or stands at a reserved slot of it. -/
def lacksRegister (i : Instruction) (f : OperandField) : Bool :=
  match f.kind with
  | .register table =>
    table.entries.length ≤ (f.extract i.word).toNat || table.entries[(f.extract i.word).toNat]? == some none
  | _ => false

theorem lacksRegister_iff : i.lacksRegister f = true ↔ i.SelectsNothing f := by
  unfold lacksRegister SelectsNothing
  cases hkind : f.kind with
  | register table =>
    rw [Bool.or_eq_true, decide_eq_true_eq, beq_iff_eq, ← List.getElem?_eq_none_iff]
    rcases hentry : table.entries[(f.extract i.word).toNat]? with _ | _ | r
    all_goals simp [hentry]
  | immediate | relative | absolute => simp

/-- The error for such a field. -/
def reservedError (i : Instruction) (f : OperandField) : DecodeError :=
  .invalidOperand i.start f.name (f.extract i.word)

theorem register_eq_ok {table : RegisterTable} {r : Register} :
    i.register f table = .ok r ↔ table.entries[(f.extract i.word).toNat]? = some (some r) := by
  simp only [register]
  split
  · rename_i r' hr
    simp [hr]
  · rename_i hno
    constructor
    · intro h
      cases h
    · intro h
      exact absurd h (hno r)

theorem register_eq_error {table : RegisterTable} :
    i.register f table = .error err ↔
      (∀ r, table.entries[(f.extract i.word).toNat]? ≠ some (some r)) ∧ err = i.reservedError f := by
  simp only [register]
  split
  · rename_i r hr
    constructor
    · intro h; cases h
    · intro h; exact absurd hr (h.1 r)
  · rename_i hno
    constructor
    · intro h; cases h; exact ⟨hno, rfl⟩
    · rintro ⟨-, rfl⟩; rfl

theorem fieldStorage_eq_error : i.fieldStorage l f = .error err ↔ i.SelectsNothing f ∧ err = i.reservedError f := by
  simp only [fieldStorage, SelectsNothing]
  cases hkind : f.kind with
  | register table => simp [map_eq_error, register_eq_error]
  | immediate | relative | absolute => simp

theorem fieldText_eq_error : i.fieldText l f = .error err ↔ i.SelectsNothing f ∧ err = i.reservedError f := by
  simp only [fieldText, SelectsNothing]
  cases hkind : f.kind with
  | register table => simp [map_eq_error, register_eq_error]
  | immediate isSigned => cases isSigned <;> simp
  | relative | absolute => simp

end Instruction

/-! ## Computations that go through fields -/

/-- `x` fails just if one of the fields selects nothing, over the first that does. -/
def FailsOver {α : Type} (i : Instruction) (fields : List OperandField) (x : Except DecodeError α) : Prop :=
  ∀ err, x = .error err ↔ ∃ f, fields.find? i.lacksRegister = some f ∧ err = i.reservedError f

namespace FailsOver

variable {α β : Type} {i : Instruction} {fields others : List OperandField}

theorem ok (a : α) : FailsOver i [] (.ok a) := by
  intro err
  simp

/-- What goes through one field. -/
theorem single {f : OperandField} {x : Except DecodeError α}
    (h : ∀ err, x = .error err ↔ i.SelectsNothing f ∧ err = i.reservedError f) : FailsOver i [f] x := by
  intro err
  rw [h, ← Instruction.lacksRegister_iff]
  by_cases hf : i.lacksRegister f = true
  · simp [hf]
  · simp [hf]

/-- Where there is a result, every field selects a register. -/
theorem none_of_ok {x : Except DecodeError α} (h : FailsOver i fields x) {a : α} (ha : x = .ok a) :
    fields.find? i.lacksRegister = none := by
  cases hfind : fields.find? i.lacksRegister with
  | none => rfl
  | some f =>
    have herror := (h _).mpr ⟨f, hfind, rfl⟩
    rw [ha] at herror
    cases herror

/-- The fields of what comes first come first. -/
theorem bind {x : Except DecodeError α} {k : α → Except DecodeError β} (h : FailsOver i fields x)
    (hk : ∀ a, FailsOver i others (k a)) : FailsOver i (fields ++ others) (x >>= k) := by
  intro err
  rw [bind_eq_error, h err, List.find?_append]
  -- one of the first fields selects nothing, or else what comes first has a result
  cases hfind : fields.find? i.lacksRegister with
  | some f =>
    have hnot : ∀ a, x ≠ .ok a := fun a ha => by
      rw [h.none_of_ok ha] at hfind
      cases hfind
    simp [hnot]
  | none =>
    rcases hx : x with herr | a
    · obtain ⟨f, hf, -⟩ := (h herr).mp hx
      rw [hfind] at hf
      cases hf
    · simp [hk a err]

theorem map {x : Except DecodeError α} (h : FailsOver i fields x) (g : α → β) : FailsOver i fields (x.map g) := by
  intro err
  rw [map_eq_error, h err]

theorem mapM {x : α → Except DecodeError β} {fieldsOf : α → List OperandField}
    (h : ∀ a, FailsOver i (fieldsOf a) (x a)) (as : List α) : FailsOver i (as.flatMap fieldsOf) (as.mapM x) := by
  induction as with
  | nil => exact ok []
  | cons a as ih =>
    rw [List.mapM_cons, List.flatMap_cons]
    refine (h a).bind fun b => ?_
    have hrest := ih.bind fun bs => ok (b :: bs)
    rwa [List.append_nil] at hrest

theorem optionMapM {x : α → Except DecodeError β} {fieldsOf : α → List OperandField}
    (h : ∀ a, FailsOver i (fieldsOf a) (x a)) (o : Option α) :
    FailsOver i (o.toList.flatMap fieldsOf) (o.mapM x) := by
  cases o with
  | none => exact ok none
  | some a =>
    rw [Option.toList_some, List.flatMap_singleton]
    exact (h a).map some

end FailsOver

/-! ## Micro-operations -/

namespace Instruction

variable (i : Instruction) (l : Language)

theorem storage_failsOver (o : OperandTemplate) : FailsOver i o.field?.toList (i.storage l o) := by
  cases o with
  | field f => exact .single fun err => fieldStorage_eq_error
  | register | constant | temporary | spaceNumber | start | next => exact .ok _

/-- The field of the output comes before those of the inputs, which come from left to right. -/
theorem resolve_failsOver (t : OpTemplate) : FailsOver i (t.operands.filterMap (·.field?)) (i.resolve l t) := by
  rw [List.filterMap_eq_flatMap_toList, OpTemplate.operands, List.flatMap_append]
  refine (FailsOver.optionMapM (i.storage_failsOver l) t.output).bind fun output => ?_
  have hinputs := (FailsOver.mapM (i.storage_failsOver l) t.inputs).bind fun inputs =>
    FailsOver.ok (ResolvedOp.mk t.opcode output inputs)
  rwa [List.append_nil] at hinputs

theorem semantics_failsOver : FailsOver i i.encoding.opFields (i.semantics l) :=
  FailsOver.mapM (i.resolve_failsOver l) i.encoding.ops

/-! ## Text -/

theorem fragmentText_failsOver (p : Fragment) : FailsOver i p.field?.toList (i.fragmentText l p) := by
  cases p with
  | literal s => exact .ok _
  | field f => exact .single fun err => fieldText_eq_error

theorem operandText_failsOver : FailsOver i i.encoding.printedFields (i.operandText l) := by
  rw [Encoding.printedFields, List.filterMap_eq_flatMap_toList]
  exact (FailsOver.mapM (i.fragmentText_failsOver l) i.encoding.operands).map String.join

end Instruction

namespace Engine

variable (i : Instruction) (l : Language)

theorem microOps_failsOver : FailsOver i i.encoding.opFields (microOps l i) :=
  (i.semantics_failsOver l).map _

theorem assembly_failsOver : FailsOver i i.encoding.printedFields (assembly l i) :=
  (i.operandText_failsOver l).map _

end Engine

end Lifter
