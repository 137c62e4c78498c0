/-
  Lifter.Proofs.Operands — what is handed over for an operand of the description.

  The micro-operations of an instruction have a varnode for every operand of their
  templates (`microOps_lifts`), and the templates have an operand for every expression
  of the `<op>` elements that they are read from (`DeclaredBy.operands`). What a call
  hands over is all of that, or the first part of it (`Engine.seenRun_cases`). So every
  varnode that is handed over is the one for which some expression of the description
  stands (`Engine.HandsOver.standsFor`), and a call that succeeds hands one over for
  each of them (`Engine.handsOver_of_ok`). A varnode lies at the offset of its storage
  wrapped to the space, which changes nothing for registers and operand fields
  (`Instruction.fieldStorage_fits`).
-/

import Lifter.Proofs.Agreement

namespace Lifter

open Specification

/-! ## The operands of a micro-operation -/

/-- The output, if any, and the inputs. -/
def MicroOp.varnodes (op : MicroOp) : List Varnode := op.output.toList ++ op.inputs

namespace Instruction

/-- The varnode for which an operand stands. -/
def varnode (i : Instruction) (l : Language) (o : OperandTemplate) : Except DecodeError Varnode :=
  (i.storage l o).map (·.varnode)

/-- The micro-operation has the varnodes of the operands of its template. -/
structure Lifts (i : Instruction) (l : Language) (t : OpTemplate) (op : MicroOp) : Prop where
  output : Option.Rel (fun o v => i.varnode l o = .ok v) t.output op.output
  inputs : List.Forall₂ (fun o v => i.varnode l o = .ok v) t.inputs op.inputs

theorem microOps_lifts {i : Instruction} {l : Language} {records : List MicroOp}
    (h : Engine.microOps l i = .ok records) : List.Forall₂ (i.Lifts l) i.encoding.ops records := by
  obtain ⟨ops, hops, rfl⟩ := map_eq_ok.mp h
  rw [List.forall₂_map_right_iff]
  refine (mapM_eq_ok.mp hops).imp fun t op ht => ?_
  simp only [resolve, bind_eq_ok, pure_eq_ok] at ht
  obtain ⟨output, hout, inputs, hin, rfl⟩ := ht
  refine ⟨optionMapM_rel Storage.varnode hout, ?_⟩
  rw [List.forall₂_map_right_iff]
  exact (mapM_eq_ok.mp hin).imp fun o s hs => map_eq_ok.mpr ⟨s, hs, rfl⟩

namespace Lifts

variable {i : Instruction} {l : Language} {t : OpTemplate} {op : MicroOp}

theorem operands (h : i.Lifts l t op) :
    List.Forall₂ (fun o v => i.varnode l o = .ok v) t.operands op.varnodes :=
  List.rel_append (forall₂_toList h.output) h.inputs

/-- An output is that of the template. -/
theorem output_eq_some (h : i.Lifts l t op) {v : Varnode} (hv : op.output = some v) :
    ∃ o, t.output = some o ∧ i.varnode l o = .ok v := by
  have hout := h.output
  rw [hv] at hout
  cases ht : t.output with
  | none => rw [ht] at hout; cases hout
  | some o =>
    rw [ht] at hout
    cases hout with
    | some ho => exact ⟨o, rfl, ho⟩

end Lifts

end Instruction

/-! ## Storage that wrapping leaves alone -/

/-- An offset that its space can hold. -/
def Storage.Fits (s : Storage) : Prop := s.space.wrap s.offset = s.offset

theorem Storage.Fits.storage_varnode {s : Storage} (h : s.Fits) : s.varnode.storage = s := by
  rw [Varnode.storage, Storage.varnode, Address.offset_address, h, Address.space_address]

theorem Space.wrap_wrap (s : Space) (offset : UInt64) : s.wrap (s.wrap offset) = s.wrap offset :=
  wrap_of_le (s.wrap_le_highest offset)

theorem constantSpace_fits (bigEndian : Bool) (value : UInt64) (size : Nat) :
    Storage.Fits ⟨constantSpace bigEndian, value, size⟩ := by
  apply UInt64.toNat_inj.mp
  rw [Space.toNat_wrap]
  exact Nat.mod_eq_of_lt value.toNat_lt

theorem Register.WellFormed.storage_fits {spaces : List Space} {r : Register} (h : r.WellFormed spaces) :
    r.storage.Fits := by
  apply Space.wrap_of_le
  rw [UInt64.le_iff_toNat_le]
  exact Nat.le_trans (Nat.le_add_right _ _) h.last_le

namespace Instruction

variable {i : Instruction} {l : Language} {f : OperandField}

/-- The storage of every field fits its space. -/
theorem fieldStorage_fits (hw : l.WellFormed) (hconstant : l.constantSpace = constantSpace l.bigEndian)
    (hf : f.kind.Declared l.tables) {s : Storage} (hs : i.fieldStorage l f = .ok s) : s.Fits := by
  cases hkind : f.kind with
  | register table =>
    simp only [fieldStorage, hkind, FieldKind.Declared] at hs hf
    obtain ⟨r, hr, rfl⟩ := map_eq_ok.mp hs
    exact (hw.register_declared hf hr).2.storage_fits
  | immediate isSigned size =>
    simp only [fieldStorage, hkind, hconstant] at hs
    cases hs
    exact constantSpace_fits _ _ _
  | relative | absolute =>
    simp only [fieldStorage, hkind] at hs
    cases hs
    exact Space.wrap_wrap _ _

end Instruction

/-! ## The expressions that operands are read from -/

/-- The expressions in an `<op>` element, that of the output before those of the inputs. -/
def Element.operandExpressions (el : Element) : List String :=
  (el.attribute? "out").toList ++ Text.words ((el.attribute? "in").getD "")

theorem readOutput_operand {d : Declarations} {mnemonic : String} {fields : List OperandField} {el : Element}
    {output : Option OperandTemplate} (h : readOutput d mnemonic fields el = .ok output) :
    Option.Rel (fun text o => readOperand d.spaces d.registerStore fields text = .ok o) (el.attribute? "out")
      output := by
  unfold readOutput at h
  split at h
  · rename_i hnone
    cases h
    rw [hnone]
    exact .none
  · rename_i text htext
    simp only [bind_eq_ok, within, mapError_eq_ok] at h
    obtain ⟨o, ho, h⟩ := h
    split at h
    · cases h
      rw [htext]
      exact .some ho
    · cases h

theorem readOp_operands {d : Declarations} {mnemonic : String} {fields : List OperandField} {el : Element}
    {t : OpTemplate} (h : readOp d mnemonic fields el = .ok t) :
    List.Forall₂ (fun text o => readOperand d.spaces d.registerStore fields text = .ok o) el.operandExpressions
      t.operands := by
  simp only [readOp, bind_eq_ok] at h
  obtain ⟨code, -, h⟩ := h
  split at h
  · simp [invalid] at h
  · simp only [bind_eq_ok, within, mapError_eq_ok, pure_eq_ok] at h
    obtain ⟨output, houtput, inputs, hinputs, rfl⟩ := h
    exact List.rel_append (forall₂_toList (readOutput_operand houtput)) (mapM_eq_ok.mp hinputs)

/-- The parts of an encoding that are read from elements of their own. -/
theorem readEncoding_parts {d : Declarations} {el : Element} {e : Encoding} (h : readEncoding d el = .ok e) :
    (el.childrenNamed "when").mapM (readConstraint d) = .ok e.constraints ∧
      collect (readOperandField d e.mnemonic e.length) [] (el.childrenNamed "field") = .ok e.fields ∧
      readOperands e.fields ((el.attribute? "operands").getD "") = .ok e.operands ∧
      (el.childrenNamed "op").mapM (readOp d e.mnemonic e.fields) = .ok e.ops := by
  simp only [readEncoding, bind_eq_ok, unless_eq_ok, within, mapError_eq_ok, pure_eq_ok] at h
  obtain ⟨mnemonic, -, length, -, _, -, _, -, -, -, constraints, hconstraints, fields, hfields, operands, hoperands, ops,
    hops, rfl⟩ := h
  exact ⟨hconstraints, hfields, hoperands, hops⟩

/-- `el` is one of the instructions of the description, and is read as `e`. -/
structure DeclaredBy (root : Element) (l : Language) (e : Encoding) (el : Element) : Prop where
  mem : ∃ instructions, root.child? "instructions" = some instructions ∧ el ∈ instructions.childrenNamed "instruction"
  read : readEncoding l.declarations el = .ok e

theorem exists_declaredBy {root : Element} {l : Language} (h : Language.ofElement root = .ok l) {e : Encoding}
    (he : e ∈ l.encodings) : ∃ el, DeclaredBy root l e el := by
  obtain ⟨-, -, instructions, encodings, -, -, -, -, -, -, -, -, hinstructions, hencodings, hsorted⟩ :=
    ofElement_parts h
  rw [hsorted] at he
  obtain ⟨el, hel, hread⟩ := exists_of_forall₂ (mapM_eq_ok.mp hencodings) e (mem_byLength he)
  exact ⟨el, ⟨instructions, hinstructions, hel⟩, hread⟩

/-- The fields are read from the `<field>` elements, one from each. -/
theorem DeclaredBy.fields_read {root el : Element} {l : Language} {e : Encoding} (h : DeclaredBy root l e el) :
    List.Forall₂ (fun fieldEl f => ∃ before, readOperandField l.declarations e.mnemonic e.length before fieldEl = .ok f)
      (el.childrenNamed "field") e.fields := by
  obtain ⟨news, hnews, hread⟩ := collect_forall₂ (readEncoding_parts h.read).2.1
  rw [hnews, List.nil_append]
  exact hread

/-- The operands of the templates are read from the expressions, one from each. -/
theorem DeclaredBy.operands {root el : Element} {l : Language} {e : Encoding} (h : DeclaredBy root l e el) :
    List.Forall₂ (fun opEl (t : OpTemplate) =>
      List.Forall₂ (fun text o => readOperand l.spaces l.registerStore e.fields text = .ok o) opEl.operandExpressions
        t.operands) (el.childrenNamed "op") e.ops :=
  (mapM_eq_ok.mp (readEncoding_parts h.read).2.2.2).imp fun _ _ ht => readOp_operands ht

/-- In the instruction, the expression stands for `v`. -/
def Instruction.StandsFor (i : Instruction) (l : Language) (text : String) (v : Varnode) : Prop :=
  ∃ o, readOperand l.spaces l.registerStore i.encoding.fields text = .ok o ∧ i.varnode l o = .ok v

/-- Every expression stands for the varnode at its place. -/
theorem DeclaredBy.standsFor {root el : Element} {l : Language} {i : Instruction} (h : DeclaredBy root l i.encoding el)
    {records : List MicroOp} (hrecords : Engine.microOps l i = .ok records) :
    List.Forall₂ (fun opEl op => List.Forall₂ (i.StandsFor l) opEl.operandExpressions op.varnodes)
      (el.childrenNamed "op") records := by
  refine (forall₂_comp h.operands (Instruction.microOps_lifts hrecords)).imp ?_
  rintro opEl op ⟨t, hread, hlifts⟩
  exact forall₂_comp hread hlifts.operands

/-! ## What a call hands over -/

/-- What was handed over, whatever came of it. -/
def Seen.records {α : Type} (seen : Seen α) : List α := seen.receipts.map (·.record)

namespace Engine

variable {σ τ α : Type} [ByteSource σ] {e : Engine σ} {offset : UInt64}

/-- A call hands over nothing, or the records of the instruction it found, up to the one on which the sink
    broke down. -/
theorem seenRun_cases (e : Engine σ) (offset : UInt64) (explain : Instruction → Except DecodeError (List α))
    (sink : Sink α τ) (t : τ) :
    (e.seenRun offset explain sink t).records = [] ∨
      ∃ i records, (e.fetch offset).result = .ok i ∧ explain i = .ok records ∧
        (e.seenRun offset explain sink t).records <+: records := by
  rcases (e.run_ends_observed offset explain sink.witnessed (t, [])).of_witnessed.2 with
    ⟨hnone, -⟩ | ⟨i, records, outcome, hfound, hrecords, hdelivered, -⟩
  · exact .inl (congrArg (List.map Receipt.record) hnone)
  · refine .inr ⟨i, records, hfound, hrecords, ?_⟩
    cases outcome with
    | none => exact (hdelivered.of_none rfl).1 ▸ List.prefix_rfl
    | some fault => exact (hdelivered.of_some rfl).1

/-- A call that succeeds hands over all of them. -/
theorem seenRun_of_ok {explain : Instruction → Except DecodeError (List α)} {sink : Sink α τ} {t : τ} {n : Nat}
    (h : (e.run offset explain sink t).result = .ok n) :
    ∃ i, (e.fetch offset).result = .ok i ∧ explain i = .ok (e.seenRun offset explain sink t).records := by
  rw [← run_watched] at h
  rcases (e.run_ends_observed offset explain sink.witnessed (t, [])).of_witnessed.2 with
    ⟨-, err, hr, -⟩ | ⟨i, records, outcome, hfound, hrecords, hdelivered, hr⟩
  · rw [h] at hr
    cases hr
  · cases outcome with
    | none => exact ⟨i, hfound, hrecords.trans (congrArg _ (hdelivered.of_none rfl).1.symm)⟩
    | some fault =>
      rw [h] at hr
      cases hr

/-- What decoding hands over is lifted from the templates of the instruction it found. -/
theorem seenDecode_lifts {sink : Sink MicroOp τ} {t : τ} {op : MicroOp}
    (h : op ∈ (e.seenDecode offset sink t).records) :
    ∃ i, (e.fetch offset).result = .ok i ∧ ∃ template ∈ i.encoding.ops, i.Lifts e.language template op := by
  rcases e.seenRun_cases offset (microOps e.language) sink t with hnone | ⟨i, records, hfound, hrecords, hinit⟩
  · have hempty : (e.seenDecode offset sink t).records = [] := hnone
    rw [hempty] at h
    cases h
  · exact ⟨i, hfound, exists_of_forall₂ (Instruction.microOps_lifts hrecords) op (hinit.subset h)⟩

/-- Decoding at `offset` hands `v` over for an expression of the description. -/
def HandsOver (root : Element) (e : Engine σ) (offset : UInt64) (sink : Sink MicroOp τ) (t : τ) (text : String)
    (v : Varnode) : Prop :=
  ∃ i el opEl op, (e.fetch offset).result = .ok i ∧ DeclaredBy root e.language i.encoding el ∧
    (opEl, op) ∈ (el.childrenNamed "op").zip (e.seenDecode offset sink t).records ∧
    (text, v) ∈ opEl.operandExpressions.zip op.varnodes

/-- What is handed over for an expression is what it stands for in the instruction found there. -/
theorem HandsOver.standsFor_of_fetch {root : Element} {sink : Sink MicroOp τ} {t : τ} {text : String} {v : Varnode}
    (h : HandsOver root e offset sink t text v) {i : Instruction} (found : (e.fetch offset).result = .ok i) :
    i.StandsFor e.language text v := by
  obtain ⟨i', el, opEl, op, hfound, hdeclared, hop, hoperand⟩ := h
  rw [found] at hfound
  cases hfound
  rcases e.seenRun_cases offset (microOps e.language) sink t with hnone | ⟨j, records, hfound', hrecords, hinit⟩
  · have hempty : (e.seenDecode offset sink t).records = [] := hnone
    rw [hempty] at hop
    simp at hop
  · rw [found] at hfound'
    cases hfound'
    exact List.forall₂_zip (List.forall₂_zip (hdeclared.standsFor hrecords) (mem_zip_of_initial hinit hop)) hoperand

theorem HandsOver.standsFor {root : Element} {sink : Sink MicroOp τ} {t : τ} {text : String} {v : Varnode}
    (h : HandsOver root e offset sink t text v) : ∃ i : Instruction, i.StandsFor e.language text v := by
  obtain ⟨i, -, -, -, found, -⟩ := id h
  exact ⟨i, h.standsFor_of_fetch found⟩

/-- A call that succeeds hands a varnode over for every expression of the instruction it found. -/
theorem handsOver_of_ok {root : Element} (accepted : Language.ofElement root = .ok e.language) {sink : Sink MicroOp τ}
    {t : τ} {n : Nat} (h : (e.seenDecode offset sink t).result = .ok n) :
    ∃ i el, (e.fetch offset).result = .ok i ∧ DeclaredBy root e.language i.encoding el ∧
      ∀ opEl ∈ el.childrenNamed "op", ∀ text ∈ opEl.operandExpressions, ∃ v, HandsOver root e offset sink t text v := by
  obtain ⟨i, hfound, hrecords⟩ := seenRun_of_ok h
  obtain ⟨el, hel⟩ := exists_declaredBy accepted (e.fetch_declared hfound)
  have hstands := hel.standsFor hrecords
  refine ⟨i, el, hfound, hel, fun opEl hopEl text htext => ?_⟩
  obtain ⟨op, hop⟩ := exists_mem_zip hstands.length_eq hopEl
  obtain ⟨v, hv⟩ := exists_mem_zip (List.forall₂_zip hstands hop).length_eq htext
  exact ⟨v, i, el, opEl, op, hfound, hel, hop, hv⟩

end Engine

end Lifter
