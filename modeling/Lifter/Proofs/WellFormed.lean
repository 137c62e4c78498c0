/-
  Lifter.Proofs.WellFormed — languages in which every reference leads somewhere.

  Spaces are numbered by their positions and have one to eight bytes of offset; the
  spaces that a language singles out are among them. Registers lie inside their space
  and are found by an exact index, tables hold registers of the language, and an
  encoding refers to declared context fields, tables, registers, spaces and to its own
  operand fields only. Its fields lie inside its one to eight bytes. That every accepted
  language is of this kind is `ofElement_wellFormed` in `Lifter.Proofs.Reading`.
-/

import Lifter.Instruction
import Lifter.Proofs.RegisterIndex
import Lifter.Specification.Reader

namespace Lifter

open Specification (Declarations)

/-! ## Declarations -/

structure Space.Regular (s : Space) : Prop where
  addressSize_pos : 1 ≤ s.addressSize
  addressSize_le : s.addressSize ≤ 8
  wordSize_pos : 1 ≤ s.wordSize

structure SpacesWellFormed (spaces : List Space) : Prop where
  numbered : ∀ (i : Nat) (s : Space), spaces[i]? = some s → s.id.index = i
  distinct : (spaces.map (·.name)).Nodup
  regular : ∀ s ∈ spaces, s.Regular
  /-- Only the first space holds constants. -/
  constant : ∀ s ∈ spaces, s.kind = .constant ↔ s.id.index = 0

structure Register.WellFormed (spaces : List Space) (r : Register) : Prop where
  space_mem : r.storage.space ∈ spaces
  size_pos : 1 ≤ r.storage.size
  size_le : r.storage.size ≤ 64
  last_le : r.storage.offset.toNat + (r.storage.size - 1) ≤ r.storage.space.highest.toNat

structure RegistersWellFormed (spaces : List Space) (s : RegisterStore) : Prop where
  distinct : (s.registers.map (·.name)).Nodup
  each : ∀ r ∈ s.registers, r.WellFormed spaces
  index : s.Exact

structure RegisterTable.WellFormed (registers : List Register) (t : RegisterTable) : Prop where
  nonempty : t.entries ≠ []
  declared : ∀ r, some r ∈ t.entries → r ∈ registers

structure TablesWellFormed (registers : List Register) (tables : List RegisterTable) : Prop where
  distinct : (tables.map (·.name)).Nodup
  each : ∀ t ∈ tables, t.WellFormed registers

structure ContextField.WellFormed (f : ContextField) : Prop where
  width_pos : 1 ≤ f.width
  width_le : f.width ≤ 32
  default_fits : f.fits f.default = true

structure ContextFieldsWellFormed (fields : List ContextField) : Prop where
  distinct : (fields.map (·.name)).Nodup
  each : ∀ f ∈ fields, f.WellFormed

/-! ## Encodings -/

def FieldKind.Declared (tables : List RegisterTable) : FieldKind → Prop
  | .register table => table ∈ tables
  | .immediate _ size => 1 ≤ size ∧ size ≤ 8
  | .relative _ | .absolute => True

structure OperandField.WellFormed (d : Declarations) (length : Nat) (f : OperandField) : Prop where
  width_pos : 1 ≤ f.width
  inside : f.lsb + f.width ≤ 8 * length
  kind : f.kind.Declared d.tables

structure FieldsWellFormed (d : Declarations) (length : Nat) (fields : List OperandField) : Prop where
  distinct : (fields.map (·.name)).Nodup
  each : ∀ f ∈ fields, f.WellFormed d length

def OperandTemplate.Declared (d : Declarations) (fields : List OperandField) : OperandTemplate → Prop
  | .field f => f ∈ fields
  | .register r => r ∈ d.registers
  | .constant value size => 1 ≤ size ∧ size ≤ 8 ∧ value ≤ lowMask (8 * size)
  | .temporary _ size => 1 ≤ size ∧ size ≤ 8
  | .spaceNumber s => s ∈ d.spaces
  | .start | .next => True

structure OpTemplate.Declared (d : Declarations) (fields : List OperandField) (t : OpTemplate) : Prop where
  output : ∀ o, t.output = some o → o.Declared d fields ∧ o.isWritable = true
  inputs : ∀ o ∈ t.inputs, o.Declared d fields

def Fragment.Declared (fields : List OperandField) : Fragment → Prop
  | .literal _ => True
  | .field f => f ∈ fields

def Constraint.Declared (d : Declarations) (c : Constraint) : Prop :=
  ∃ f ∈ d.contextFields, f.name = c.field ∧ c.value.toNat < capacity f.width

structure Encoding.WellFormed (d : Declarations) (e : Encoding) : Prop where
  length_pos : 1 ≤ e.length
  length_le : e.length ≤ maxInstructionSize
  mask_lt : e.mask.toNat < capacity (8 * e.length)
  bits_under : e.bits &&& e.mask = e.bits
  constraints : ∀ c ∈ e.constraints, c.Declared d
  fields : FieldsWellFormed d e.length e.fields
  operands : ∀ p ∈ e.operands, p.Declared e.fields
  ops : ∀ t ∈ e.ops, t.Declared d e.fields

namespace Encoding.WellFormed

variable {d : Declarations} {e : Encoding} {f : OperandField}

/-- The fields lie inside a word. -/
theorem inside_word (h : e.WellFormed d) (hf : f ∈ e.fields) : f.lsb + f.width ≤ 64 := by
  have hlength : e.length ≤ 8 := h.length_le
  have hinside := (h.fields.each f hf).inside
  omega

/-- A field has one bit at least, and those of a word at most. -/
theorem width_bounds (h : e.WellFormed d) (hf : f ∈ e.fields) : 1 ≤ f.width ∧ f.width ≤ 64 := by
  have hinside := h.inside_word hf
  exact ⟨(h.fields.each f hf).width_pos, by omega⟩

end Encoding.WellFormed

/-! ## Languages -/

/-- What the encodings of a language may refer to. -/
def Language.declarations (l : Language) : Declarations := ⟨l.spaces, l.registerStore, l.tables, l.contextFields⟩

structure Language.WellFormed (l : Language) : Prop where
  alignment : l.alignment ∈ [1, 2, 4, 8]
  spaces : SpacesWellFormed l.spaces
  constantSpace : l.spaces[0]? = some l.constantSpace
  codeSpace_mem : l.codeSpace ∈ l.spaces
  codeSpace_kind : l.codeSpace.kind = .processor
  uniqueSpace_mem : l.uniqueSpace ∈ l.spaces
  uniqueSpace_name : l.uniqueSpace.name = Specification.uniqueSpaceName
  registers : RegistersWellFormed l.spaces l.registerStore
  tables : TablesWellFormed l.registers l.tables
  contextFields : ContextFieldsWellFormed l.contextFields
  encodings : ∀ e ∈ l.encodings, e.WellFormed l.declarations

namespace Language.WellFormed

variable {l : Language}

/-- A space is found under its number. -/
theorem getElem?_spaces (h : l.WellFormed) {s : Space} (hs : s ∈ l.spaces) : l.spaces[s.id.index]? = some s := by
  obtain ⟨i, hi⟩ := List.getElem?_of_mem hs
  rwa [h.spaces.numbered i s hi]

theorem constantSpace_mem (h : l.WellFormed) : l.constantSpace ∈ l.spaces := List.mem_of_getElem? h.constantSpace

theorem alignment_pos (h : l.WellFormed) : 0 < l.alignment := by
  have := h.alignment
  simp only [List.mem_cons, List.not_mem_nil, or_false] at this
  omega

theorem alignment_le (h : l.WellFormed) : l.alignment ≤ maxInstructionSize := by
  have := h.alignment
  simp only [List.mem_cons, List.not_mem_nil, or_false] at this
  simp only [maxInstructionSize]
  omega

theorem registers_distinct (h : l.WellFormed) : (l.registers.map (·.name)).Nodup := h.registers.distinct

theorem codeSpace_regular (h : l.WellFormed) : l.codeSpace.Regular := h.spaces.regular _ h.codeSpace_mem

/-- A register that a field selects is one of the language. -/
theorem register_declared (h : l.WellFormed) {i : Instruction} {f : OperandField} {table : RegisterTable}
    (ht : table ∈ l.tables) {r : Register} (hr : i.register f table = .ok r) :
    r ∈ l.registers ∧ r.WellFormed l.spaces := by
  have hentry : some r ∈ table.entries := by
    simp only [Instruction.register] at hr
    split at hr
    · rename_i r' hr'
      cases hr
      exact List.mem_of_getElem? hr'
    · cases hr
  have hmem : r ∈ l.registers := (h.tables.each table ht).declared r hentry
  exact ⟨hmem, h.registers.each r hmem⟩

end Language.WellFormed

end Lifter
