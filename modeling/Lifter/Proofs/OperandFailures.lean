/-
  Lifter.Proofs.OperandFailures — what becomes of the operands of an instruction.

  Micro-operations and text fail over the first register field they go through whose
  value is past its table or stands at a reserved slot (`FailsOver`). The slots of a
  table are the words of its declaration, `_` for a reserved one (`DescribesTable`). Where
  the text does not fail, it is the declared one with its placeholders filled in
  (`Instruction.operandText_eq_ok`): with the name of a register, a number in hexadecimal
  or a target, whose offset is computed over the integers (`Instruction.Shows`). All of it
  together, for an accepted language, is `Language.operand_failures_exact`.
-/

import Lifter.Proofs.OperandTexts
import Lifter.Proofs.Targets

namespace Lifter

open Specification

/-! ## Text -/

namespace Instruction

variable (i : Instruction) (l : Language)

/-- What stands for a field in the text: the name of the register that its table has at its value, the value
    itself, with a sign if it is one of two's complement and negative, or the offset in code to which it points,
    relative to the instruction or not. -/
def Shows (f : OperandField) (text : String) : Prop :=
  let value := (f.extract i.word).toNat
  match f.kind with
  | .register table => ∃ r, table.entries[value]? = some (some r) ∧ text = r.name
  | .immediate false _ => text = Text.hexNat value
  | .immediate true _ =>
    (∃ n : Nat, twosComplement f.width value = n ∧ text = Text.hexNat n) ∨
      ∃ n : Nat, 0 < n ∧ twosComplement f.width value = -n ∧ text = "-" ++ Text.hexNat n
  | .relative scale =>
    ∃ n : Nat, (n : Int) = (i.start.toNat + scale * twosComplement f.width value) % l.codeSpace.extent ∧
      text = Text.hexNat n
  | .absolute => text = Text.hexNat (value % l.codeSpace.extent)

theorem eq_signedText_iff {n : Int} {text : String} :
    text = signedText n ↔ (∃ m : Nat, n = m ∧ text = Text.hexNat m) ∨
      ∃ m : Nat, 0 < m ∧ n = -m ∧ text = "-" ++ Text.hexNat m := by
  rcases Int.lt_or_le n 0 with hneg | hpos
  · rw [signedText, if_pos hneg]
    constructor
    · intro h
      exact .inr ⟨n.natAbs, by omega, by omega, h⟩
    · intro h
      obtain ⟨m, hm, -⟩ | ⟨m, -, rfl, h⟩ := h
      · omega
      · rwa [Int.natAbs_neg, Int.natAbs_natCast]
  · rw [signedText, if_neg (by omega)]
    constructor
    · intro h
      exact .inl ⟨n.toNat, by omega, h⟩
    · intro h
      obtain ⟨m, rfl, h⟩ | ⟨m, hpos, hm, -⟩ := h
      · rwa [Int.toNat_natCast]
      · omega

/-- The text of a field is what stands for it. -/
theorem fieldText_eq_ok {f : OperandField} {text : String} : i.fieldText l f = .ok text ↔ i.Shows l f text := by
  unfold fieldText Shows
  cases hkind : f.kind with
  | register table =>
    rw [map_eq_ok]
    exact exists_congr fun r => and_congr register_eq_ok eq_comm
  | immediate isSigned =>
    cases isSigned with
    | false => simp only [Except.ok.injEq, eq_comm, Text.hex]
    | true =>
      rw [Except.ok.injEq, eq_comm, signed_eq_twosComplement (f.toNat_extract_lt i.word)]
      exact eq_signedText_iff
  | relative scale =>
    simp only [Except.ok.injEq, Text.hex, ← i.toNat_relativeTarget l f scale, Int.natCast_inj, exists_eq_left, eq_comm]
  | absolute => simp only [Except.ok.injEq, Text.hex, absoluteTarget, Space.toNat_wrap, eq_comm]

/-- A name stands for what its field shows. -/
def ShownAs (name piece : String) : Prop := ShownByName i.encoding.fields (i.Shows l) name piece

theorem fragmentText_eq_ok {p : Fragment} {text : String} :
    i.fragmentText l p = .ok text ↔ p.Prints (i.Shows l) text := by
  cases p with
  | literal s => simp [fragmentText, Fragment.Prints, eq_comm]
  | field f => exact i.fieldText_eq_ok l

/-- The text is the template with the fields in the places of their names. -/
theorem operandText_eq_ok {template text : String} (hdistinct : (i.encoding.fields.map (·.name)).Nodup)
    (hread : readOperands i.encoding.fields template = .ok i.encoding.operands) :
    i.operandText l = .ok text ↔ FilledIn (i.ShownAs l) template.toList text.toList := by
  unfold ShownAs
  rw [← readOperands_filled hdistinct hread, operandText, map_eq_ok]
  simp only [Spells, mapM_eq_ok, fragmentText_eq_ok, ← String.toList_inj, String.toList_join]

end Instruction

/-! ## Instructions of a language -/

/-- The operand text that an `<instruction>` element declares. -/
def Element.operandTemplate (el : Element) : String := (el.attribute? "operands").getD ""

theorem DeclaredBy.template {root el : Element} {l : Language} {e : Encoding} (h : DeclaredBy root l e el) :
    readOperands e.fields el.operandTemplate = .ok e.operands :=
  (readEncoding_parts h.read).2.2.1

/-- What becomes of the operands of an instruction that `el` declares: micro-operations and text fail over the
    first of their fields that selects nothing, and the text is the template with its fields filled in. -/
structure Instruction.OperandsExact (i : Instruction) (l : Language) (el : Element) : Prop where
  semantics : FailsOver i i.encoding.opFields (i.semantics l)
  assembly : FailsOver i i.encoding.printedFields (Engine.assembly l i)
  mnemonic : el.attribute? "mnemonic" = some i.encoding.mnemonic
  /-- The printed fields are the placeholders of the template. -/
  template : i.encoding.operands.flatMap (·.written.toList) = el.operandTemplate.toList
  line : ∀ lines, Engine.assembly l i = .ok lines ↔
    ∃ text : String, FilledIn (i.ShownAs l) el.operandTemplate.toList text.toList ∧
      lines = [⟨l.codeAddress i.start, i.encoding.mnemonic, text⟩]

/-- For every accepted language and every instruction of it: what fails, fails over the first field whose value
    is past its table or at a reserved slot; what does not, prints the declared text. -/
theorem Language.operand_failures_exact {root : Element} {l : Language} (accepted : Language.ofElement root = .ok l)
    (i : Instruction) (declared : i.encoding ∈ l.encodings) :
    List.Forall₂ (DescribesTable l) (root.childrenNamed "table") l.tables ∧
      (∀ f ∈ i.encoding.fields, ∀ table, f.kind = .register table → table ∈ l.tables) ∧
      ∃ el, DeclaredBy root l i.encoding el ∧ i.OperandsExact l el := by
  have hw := ofElement_wellFormed accepted
  have he := hw.encodings _ declared
  obtain ⟨el, hel⟩ := exists_declaredBy accepted declared
  refine ⟨ofElement_tables accepted, fun f hf table hkind => ?_, el, hel, i.semantics_failsOver l,
    Engine.assembly_failsOver i l, ?_, readOperands_written he.fields.distinct hel.template, fun lines => ?_⟩
  · have hdeclared := (he.fields.each f hf).kind
    rwa [hkind] at hdeclared
  · exact (readEncoding_ok hw.contextFields hel.read).2.mnemonic
  · rw [Engine.assembly, map_eq_ok]
    simp only [i.operandText_eq_ok l he.fields.distinct hel.template, eq_comm]

namespace Sample

/-- Prints its source before its destination. -/
def move : Encoding where
  mnemonic := "move"
  length := 1
  mask := 0xf0
  bits := 0x10
  constraints := []
  fields := [⟨"d", 0, 2, .register table⟩, ⟨"s", 2, 2, .register table⟩]
  operands := [.field ⟨"s", 2, 2, .register table⟩, .literal " to ", .field ⟨"d", 0, 2, .register table⟩]
  ops := [⟨.copy, some (.field ⟨"d", 0, 2, .register table⟩), [.field ⟨"s", 2, 2, .register table⟩]⟩]

def moveElement : Element :=
  ⟨"instruction",
    [("mnemonic", "move"), ("length", "1"), ("mask", "0xf0"), ("match", "0x10"), ("operands", "{s} to {d}")], "",
    [leaf "field" [("name", "d"), ("lsb", "0"), ("width", "2"), ("kind", "register"), ("table", "ab")],
      leaf "field" [("name", "s"), ("lsb", "2"), ("width", "2"), ("kind", "register"), ("table", "ab")],
      leaf "op" [("code", "COPY"), ("out", "d"), ("in", "s")]]⟩

theorem move_accepted : Language.ofElement (rootWith moveElement) = .ok (languageWith move) := by rfl

end Sample

/-- Both registers are reserved: the micro-operations meet the destination first, the text the source. -/
theorem Language.operand_failures_exact_move :
    let root := Sample.rootWith Sample.moveElement
    let l := Sample.languageWith Sample.move
    let i : Instruction := ⟨Sample.move, 0x1e, 0⟩
    Language.ofElement root = .ok l ∧ i.encoding ∈ l.encodings ∧
      ((Engine.ofLanguage (⟨0, [0x1e]⟩ : FlatImage) l).fetch 0).result = .ok i ∧
      i.semantics l = .error (.invalidOperand 0 "d" 2) ∧ Engine.assembly l i = .error (.invalidOperand 0 "s" 3) ∧
      List.Forall₂ (DescribesTable l) (root.childrenNamed "table") l.tables ∧
      (∀ f ∈ i.encoding.fields, ∀ table, f.kind = .register table → table ∈ l.tables) ∧
      ∃ el, DeclaredBy root l i.encoding el ∧ i.OperandsExact l el :=
  ⟨Sample.move_accepted, List.mem_singleton_self _, by rfl, by rfl, by rfl,
    Language.operand_failures_exact Sample.move_accepted _ (List.mem_singleton_self _)⟩

end Lifter
