/-
  Lifter.Proofs.Numbering — names, and the numbers that stand for them.

  While an element is read, a name in it takes a number: the first position of the name
  in what is declared by then. A decoder that keeps only numbers goes by that. Here an
  encoding keeps what is declared, and the checked decoder looks for the position by
  name once more (`Checked.position`).

  Both are the same number (`Language.numbers_kept`). A list of declarations is finished
  before anything refers to it by name, so later ones cannot move what is in it; and the
  index of registers, which does grow, has no name twice. It is said of the context
  fields, tables, registers and operand fields in the words of each table and of each
  instruction. Spaces carry their number (`Language.WellFormed.getElem?_spaces`).
-/

import Lifter.Proofs.Operands

namespace Lifter

open Specification

/-- The number that the name `text` takes is where a decoder looks for `kept`. -/
def KeepsNumber {α : Type} (nameOf : α → String) (declared : List α) (text kept : String) : Prop :=
  declared.findIdx? (nameOf · == text) = some (Checked.position nameOf declared kept)

theorem keepsNumber_of_find? {α : Type} {nameOf : α → String} {declared : List α} {text : String} {a : α}
    (h : declared.find? (nameOf · == text) = some a) : KeepsNumber nameOf declared text (nameOf a) := by
  obtain ⟨hmem, rfl⟩ := find?_name h
  exact List.findIdx?_eq_some_of_exists ⟨a, hmem, by simp⟩

theorem keepsNumber_of_mem {α : Type} {nameOf : α → String} {declared : List α} (hd : (declared.map nameOf).Nodup)
    {a : α} (ha : a ∈ declared) : KeepsNumber nameOf declared (nameOf a) (nameOf a) :=
  keepsNumber_of_find? (Checked.find?_name_eq hd ha)

/-- The same for the index of a store, from which registers take their numbers. -/
def RegisterStore.KeepsNumber (s : RegisterStore) (text : String) (r : Register) : Prop :=
  s.position? text = some (Checked.position (·.name) s.registers r.name)

/-- Without a name twice, a declaration is looked for where it is. -/
theorem position_of_getElem? {α : Type} {nameOf : α → String} {as : List α} (hd : (as.map nameOf).Nodup) {a : α}
    {n : Nat} (h : as[n]? = some a) : Checked.position nameOf as (nameOf a) = n := by
  have hfound := Checked.find?_name_eq hd (List.mem_of_getElem? h)
  rw [List.find?_eq_getElem?_findIdx] at hfound
  have hlt := (List.getElem?_eq_some_iff.mp hfound).1
  refine (List.getElem?_inj (by rwa [List.length_map]) hd).mp ?_
  rw [List.getElem?_map, List.getElem?_map, h]
  exact congrArg (Option.map nameOf) hfound

theorem RegisterStore.keepsNumber_of_register? {s : RegisterStore} (hd : (s.registers.map (·.name)).Nodup)
    {text : String} {r : Register} (h : s.register? text = some r) : s.KeepsNumber text r := by
  obtain ⟨n, hn, hr⟩ := Option.bind_eq_some_iff.mp h
  rw [KeepsNumber, hn, position_of_getElem? hd hr]

/-! ## What each element refers to -/

/-- Every register in a table keeps the number that the word for it takes. -/
def RegisterTable.KeepsNumbers (s : RegisterStore) (el : Element) (t : RegisterTable) : Prop :=
  ∃ list, el.attribute? "registers" = some list ∧
    List.Forall₂ (fun word entry => ∀ r, entry = some r → s.KeepsNumber word r) (Text.words list) t.entries

/-- The context field keeps the number that its name takes in the `<when>` element. -/
def Constraint.KeepsNumber (l : Language) (el : Element) (c : Constraint) : Prop :=
  ∃ name, el.attribute? "field" = some name ∧ Lifter.KeepsNumber (·.name) l.contextFields name c.field

/-- The table of a field, if it has one, keeps the number that its name takes in the `<field>` element. -/
def OperandField.KeepsNumber (l : Language) (el : Element) (f : OperandField) : Prop :=
  ∀ table, f.kind = .register table →
    ∃ name, el.attribute? "table" = some name ∧ Lifter.KeepsNumber (·.name) l.tables name table.name

/-- The field or register that an expression names keeps the number that the name takes. -/
structure OperandTemplate.KeepsNumber (l : Language) (fields : List OperandField) (text : String)
    (o : OperandTemplate) : Prop where
  field : ∀ f, o = .field f → Lifter.KeepsNumber (·.name) fields text f.name
  register : ∀ r, o = .register r → l.registerStore.KeepsNumber text r

/-- All that an `<instruction>` element refers to by name keeps its number. -/
structure Encoding.KeepsNumbers (l : Language) (el : Element) (e : Encoding) : Prop where
  constraints : List.Forall₂ (Constraint.KeepsNumber l) (el.childrenNamed "when") e.constraints
  tables : List.Forall₂ (OperandField.KeepsNumber l) (el.childrenNamed "field") e.fields
  placeholders : ∀ f, .field f ∈ e.operands → KeepsNumber (·.name) e.fields f.name f.name
  operands : List.Forall₂ (fun opEl (t : OpTemplate) =>
    List.Forall₂ (OperandTemplate.KeepsNumber l e.fields) opEl.operandExpressions t.operands)
    (el.childrenNamed "op") e.ops

theorem DescribesTable.keepsNumbers {l : Language} (hw : l.WellFormed) {el : Element} {t : RegisterTable}
    (h : DescribesTable l el t) : t.KeepsNumbers l.registerStore el := by
  obtain ⟨list, hlist, hentries⟩ := h.entries
  refine ⟨list, hlist, hentries.imp fun word entry hentry r hr => ?_⟩
  rw [DescribesEntry] at hentry
  split at hentry
  · rw [hentry] at hr
    cases hr
  · obtain ⟨found, hfound, rfl⟩ := hentry
    cases hr
    exact RegisterStore.keepsNumber_of_register? hw.registers_distinct hfound

section Instructions

variable {l : Language} {el : Element}

theorem readConstraint_keepsNumber (hw : l.WellFormed) {c : Constraint}
    (h : readConstraint l.declarations el = .ok c) : c.KeepsNumber l el := by
  obtain ⟨⟨f, hf, hname, -⟩, hfield, -⟩ := readConstraint_ok hw.contextFields h
  have hkeeps := keepsNumber_of_mem hw.contextFields.distinct hf
  rw [hname] at hkeeps
  exact ⟨c.field, hfield, hkeeps⟩

theorem readOperandField_keepsNumber {mnemonic : String} {length : Nat} {fields : List OperandField}
    {f : OperandField} (h : readOperandField l.declarations mnemonic length fields el = .ok f) :
    f.KeepsNumber l el := by
  intro table hkind
  have hread := (readOperandField_reads h).kind
  rw [hkind] at hread
  rcases readFieldKind_cases hread with ⟨name, _, hname, htable, hkind⟩ | ⟨_, _, hkind, -⟩ | ⟨_, hkind, -⟩ | hkind
  · cases hkind
    exact ⟨name, hname, keepsNumber_of_find? htable⟩
  · cases hkind
  · cases hkind
  · cases hkind

theorem readOperand_keepsNumber (hw : l.WellFormed) {fields : List OperandField} {text : String}
    {o : OperandTemplate} (h : readOperand l.spaces l.registerStore fields text = .ok o) :
    o.KeepsNumber l fields text := by
  -- only the name of a field or of a register has a number to keep
  have hother (hfield : ∀ f, o ≠ .field f) (hregister : ∀ r, o ≠ .register r) : o.KeepsNumber l fields text :=
    ⟨fun f hf => absurd hf (hfield f), fun r hr => absurd hr (hregister r)⟩
  rcases readOperand_cases h with ⟨_, _, _, -, rfl⟩ | ⟨_, _, _, -, rfl⟩ | ⟨_, -, rfl⟩ | h
  · exact hother (by simp) (by simp)
  · exact hother (by simp) (by simp)
  · exact hother (by simp) (by simp)
  · rcases readNamed_cases h with rfl | rfl | ⟨f, hf, rfl⟩ | ⟨r, hr, rfl⟩
    · exact hother (by simp) (by simp)
    · exact hother (by simp) (by simp)
    · refine ⟨?_, by simp⟩
      rintro _ ⟨⟩
      exact keepsNumber_of_find? hf
    · refine ⟨by simp, ?_⟩
      rintro _ ⟨⟩
      exact RegisterStore.keepsNumber_of_register? hw.registers_distinct hr

end Instructions

/-! ## Everything a description refers to -/

theorem DeclaredBy.keepsNumbers {root el : Element} {l : Language} {e : Encoding} (hw : l.WellFormed)
    (he : e.WellFormed l.declarations) (h : DeclaredBy root l e el) : e.KeepsNumbers l el where
  constraints := (mapM_eq_ok.mp (readEncoding_parts h.read).1).imp fun _ _ => readConstraint_keepsNumber hw
  tables := h.fields_read.imp fun _ _ ⟨_, hread⟩ => readOperandField_keepsNumber hread
  placeholders _ hf := keepsNumber_of_mem he.fields.distinct (he.operands _ hf)
  operands := h.operands.imp fun _ _ ht => ht.imp fun _ _ => readOperand_keepsNumber hw

/-- In an accepted description every name keeps the number that it takes while it is read, in the tables and in every
    instruction: the decoder, which looks for it in the finished lists, looks there. -/
theorem Language.numbers_kept {root : Element} {l : Language} (accepted : Language.ofElement root = .ok l) :
    List.Forall₂ (RegisterTable.KeepsNumbers l.registerStore) (root.childrenNamed "table") l.tables ∧
      ∀ e ∈ l.encodings, ∃ el, DeclaredBy root l e el ∧ e.KeepsNumbers l el := by
  have hw := ofElement_wellFormed accepted
  constructor
  · exact (ofElement_tables accepted).imp fun _ _ => DescribesTable.keepsNumbers hw
  · intro e he
    obtain ⟨el, hel⟩ := exists_declaredBy accepted he
    exact ⟨el, hel, hel.keepsNumbers hw (hw.encodings e he)⟩

/-- In the sample, `B` takes the number 1 from the index and is looked for there; its only table is at 0. -/
example : Sample.language.registerStore.position? "B" = some 1 ∧
    Checked.position (·.name) Sample.language.registers "B" = 1 ∧
    Checked.position (·.name) Sample.language.tables "ab" = 0 := by decide

end Lifter
