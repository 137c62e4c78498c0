/-
  Lifter.Proofs.Outputs — where micro-operations write.

  An output is a register or a temporary: `isWritable` admits no other expression, and
  the tables behind register fields hold registers only (`Instruction.varnode_writable`).
  Temporaries lie in `unique`, a register in the space that its block names. No check
  keeps a block from naming the space of the constants, which is there before any
  space is declared, so an output lies among the constants just through a register
  declared there (`Engine.constant_outputs`), and can (`Engine.put_writes_constant`).
-/

import Lifter.Proofs.Operands

namespace Lifter

open Specification

namespace Instruction

variable {i : Instruction} {l : Language}

/-- An output is the storage of a register, or a temporary. -/
theorem varnode_writable (hw : l.WellFormed) {o : OperandTemplate} (ho : o.Declared l.declarations i.encoding.fields)
    (hfields : FieldsWellFormed l.declarations i.length i.encoding.fields) (hwritable : o.isWritable = true)
    {v : Varnode} (hv : i.varnode l o = .ok v) :
    (∃ r ∈ l.registers, v.storage = r.storage) ∨ v.address.space = l.uniqueSpace := by
  obtain ⟨s, hs, rfl⟩ := map_eq_ok.mp hv
  cases o with
  | field f =>
    have hkind := (hfields.each f ho).kind
    cases htable : f.kind with
    | register table =>
      simp only [storage, fieldStorage, htable, FieldKind.Declared] at hs hkind
      obtain ⟨r, hr, rfl⟩ := map_eq_ok.mp hs
      obtain ⟨hmem, hregister⟩ := hw.register_declared hkind hr
      exact .inl ⟨r, hmem, hregister.storage_fits.storage_varnode⟩
    | immediate | relative | absolute => simp [OperandTemplate.isWritable, OperandField.isRegister, htable] at hwritable
  | register r =>
    cases hs
    exact .inl ⟨r, ho, (hw.registers.each r ho).storage_fits.storage_varnode⟩
  | temporary offset size =>
    cases hs
    exact .inr rfl
  | constant | spaceNumber | start | next => cases hwritable

end Instruction

/-- The register is declared in a block that names the space of the constants. -/
def DeclaredInConstants (root : Element) (r : Register) : Prop :=
  ∃ block ∈ root.childrenNamed "registers", block.attribute? "space" = some constantSpaceName ∧
    ∃ el ∈ block.childrenNamed "register", DescribesRegister el r

theorem declaredInConstants {root : Element} {l : Language} (accepted : Language.ofElement root = .ok l) {r : Register}
    (hr : r ∈ l.registers) (hspace : r.storage.space = l.constantSpace) : DeclaredInConstants root r := by
  obtain ⟨block, hblock, hname, el, hel, hdescribes⟩ := ofElement_registers accepted r hr
  rw [hspace, ofElement_constantSpace accepted] at hname
  exact ⟨block, hblock, hname, el, hel, hdescribes⟩

theorem uniqueSpace_ne_constantSpace {root : Element} {l : Language} (accepted : Language.ofElement root = .ok l) :
    l.uniqueSpace ≠ l.constantSpace := by
  intro h
  have hname := (ofElement_wellFormed accepted).uniqueSpace_name
  rw [h, ofElement_constantSpace accepted] at hname
  have hdistinct : constantSpaceName ≠ uniqueSpaceName := by decide
  exact hdistinct hname

/-- For every accepted language: an output that lies among the constants is the storage of a register that
    the description declares there. -/
theorem Engine.constant_outputs {σ τ : Type} [ByteSource σ] {root : Element} (engine : Engine σ) (offset : UInt64)
    (accepted : Language.ofElement root = .ok engine.language) (sink : Sink MicroOp τ) (t : τ) :
    ∀ op ∈ (engine.seenDecode offset sink t).records, ∀ v, op.output = some v →
      v.address.space = engine.language.constantSpace →
      ∃ r ∈ engine.language.registers, v.storage = r.storage ∧ DeclaredInConstants root r := by
  intro op hop v houtput hconstant
  have hw := ofElement_wellFormed accepted
  obtain ⟨i, hfound, template, htemplate, hlifts⟩ := seenDecode_lifts hop
  have he := hw.encodings _ (engine.fetch_declared hfound)
  obtain ⟨o, ho, hv⟩ := hlifts.output_eq_some houtput
  obtain ⟨hdeclared, hwritable⟩ := (he.ops template htemplate).output o ho
  rcases Instruction.varnode_writable hw hdeclared he.fields hwritable hv with ⟨r, hr, hstorage⟩ | hunique
  · have hspace : r.storage.space = engine.language.constantSpace := by
      rw [← hstorage]
      exact hconstant
    exact ⟨r, hr, hstorage, declaredInConstants accepted hr hspace⟩
  · exact absurd (hunique.symm.trans hconstant) (uniqueSpace_ne_constantSpace accepted)

namespace Sample

/-- A register among the constants. -/
def k : Register := ⟨"K", ⟨constantSpace true, 5, 1⟩⟩

def put : Encoding where
  mnemonic := "put"
  length := 1
  mask := 0xff
  bits := 0x10
  constraints := []
  fields := []
  operands := []
  ops := [⟨.copy, some (.register k), [.constant 1 1]⟩]

def putRoot : Element :=
  { root with
    children := root.children.take 3 ++
      [⟨"registers", [("space", "const")], "", [leaf "register" [("name", "K"), ("offset", "5"), ("size", "1")]]⟩,
        ⟨"instructions", [], "",
          [⟨"instruction", [("mnemonic", "put"), ("length", "1"), ("mask", "0xff"), ("match", "0x10")], "",
              [leaf "op" [("code", "COPY"), ("out", "K"), ("in", "#1:1")]]⟩]⟩] }

def putLanguage : Language :=
  { languageWith put with registerStore := ⟨[a, b, k], [("K", 2), ("B", 1), ("A", 0)]⟩ }

theorem put_accepted : Language.ofElement putRoot = .ok putLanguage := by rfl

/-- The micro-operation of `put` at offset 0. -/
def putOp : MicroOp :=
  ⟨ram.address 0, .copy, some k.storage.varnode, [Storage.varnode ⟨constantSpace true, 1, 1⟩]⟩

def putEngine : Engine FlatImage := .ofLanguage ⟨0, [0x10]⟩ putLanguage

theorem put_records : (putEngine.seenDecode 0 Sink.ops .empty).records = [putOp] := by rfl

end Sample

/-- The output of `put` is the register that is declared there. -/
theorem Engine.constant_outputs_put :
    Language.ofElement Sample.putRoot = .ok Sample.putEngine.language ∧
      Sample.putOp ∈ (Sample.putEngine.seenDecode 0 Sink.ops .empty).records ∧
      Sample.putOp.output = some Sample.k.storage.varnode ∧
      Sample.k.storage.varnode.address.space = Sample.putEngine.language.constantSpace ∧
      ∃ r ∈ Sample.putEngine.language.registers, Sample.k.storage.varnode.storage = r.storage ∧
        DeclaredInConstants Sample.putRoot r :=
  have hmem : Sample.putOp ∈ (Sample.putEngine.seenDecode 0 Sink.ops .empty).records := by simp [Sample.put_records]
  ⟨Sample.put_accepted, hmem, rfl, rfl,
    Engine.constant_outputs Sample.putEngine 0 Sample.put_accepted Sink.ops .empty _ hmem _ rfl rfl⟩

/-- So an output can lie among the constants. -/
theorem Engine.put_writes_constant :
    Language.ofElement Sample.putRoot = .ok Sample.putEngine.language ∧
      (Sample.putEngine.seenDecode 0 Sink.ops .empty).result = .ok 1 ∧
      ¬ ∀ op ∈ (Sample.putEngine.seenDecode 0 Sink.ops .empty).records, ∀ v, op.output = some v →
        v.address.space ≠ Sample.putEngine.language.constantSpace := by
  refine ⟨Sample.put_accepted, by rfl, fun h => ?_⟩
  rw [Sample.put_records] at h
  exact h Sample.putOp (List.mem_singleton_self _) _ rfl rfl

end Lifter
