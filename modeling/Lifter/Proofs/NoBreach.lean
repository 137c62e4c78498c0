/-
  Lifter.Proofs.NoBreach — an accepted description leaves no step to refuse.

  For each checked function there is one lemma that says when it has no breach, and that
  it is then the decoder's own: where the language is well-formed and the context has the
  fields of the language, which no operation on it changes. So a call on an accepted
  language reports a fault only for a source or sink that broke down
  (`calls_without_breach`). Conditions, which the decoder has by the names of their
  fields, may there be read by position (`Engine.readsByPosition`); in a store with
  other fields they may not.
-/

import Lifter.Proofs.Checked
import Lifter.Proofs.Contexts
import Lifter.Proofs.Delivery

namespace Lifter.Checked

open Specification

/-! ## Context values are in range -/

theorem position_eq {α β : Type} {nameOf : α → String} {nameOf' : β → String} {as : List α} {bs : List β}
    (h : as.map nameOf = bs.map nameOf') (name : String) : position nameOf as name = position nameOf' bs name := by
  have hmap : ∀ {γ : Type} (f : γ → String) (cs : List γ), position f cs name = (cs.map f).findIdx (· == name) := by
    intro γ f cs
    rw [List.findIdx_map]
    rfl
  rw [hmap, hmap, h]

theorem resolveSlot_eq (s : ContextSlot) (a : Address) : resolveSlot s a = .ok (s.resolve a) := by
  have hspans : (s.regions.filter (·.covers a)).mapM span = .ok ((s.regions.filter (·.covers a)).map (·.span)) := by
    refine mapM_ok fun r hr => ?_
    have hcovers := (List.mem_filter.mp hr).2
    simp only [Region.covers, Bool.and_eq_true, decide_eq_true_eq] at hcovers
    exact if_pos (UInt64.le_trans hcovers.1.2 hcovers.2)
  rw [resolveSlot, hspans]
  rfl

theorem snapshot_eq (c : Context) (a : Address) : snapshot c a = .ok (c.slots.map (·.resolve a)) :=
  mapM_ok fun s _ => resolveSlot_eq s a

/-- Every context field that a constraint names has a value. -/
theorem admits_eq {l : Language} (hw : ContextFieldsWellFormed l.contextFields) {c : Context}
    (hnames : c.names = l.contextFields.map (·.name)) (a : Address) {cs : List Constraint}
    (hcs : ∀ k ∈ cs, k.Declared l.declarations) :
    admits l (c.slots.map (·.resolve a)) cs = .ok (cs.all (·.holds c a)) := by
  have hslots : c.slots.map (·.field.name) = l.contextFields.map (·.name) := c.names_eq.symm.trans hnames
  have hd : (c.slots.map (·.field.name)).Nodup := hslots ▸ hw.distinct
  induction cs with
  | nil => rfl
  | cons k cs ih =>
    obtain ⟨f, hf, hname, -⟩ := hcs k List.mem_cons_self
    have hmem : f.name ∈ c.slots.map (·.field.name) := hslots ▸ List.mem_map_of_mem hf
    obtain ⟨s, hs, hsname⟩ := List.mem_map.mp hmem
    have hk : s.field.name = k.field := hsname.trans hname
    have hvalue : nth (c.slots.map (·.resolve a)) (position (·.name) l.contextFields k.field) = .ok (s.resolve a) := by
      rw [← position_eq hslots, ← hk]
      exact nth_position hd hs _
    have hslot : c.value? k.field a = some (s.resolve a) := by
      rw [Context.value?, Context.slot?, ← hk, find?_name_eq hd hs]
      rfl
    rw [admits, hvalue, List.all_cons, Constraint.holds, hslot]
    by_cases hv : s.resolve a = k.value
    · simpa [bind, Except.bind, hv] using ih fun k' hk' => hcs k' (List.mem_cons_of_mem _ hk')
    · simp [bind, Except.bind, hv, pure, Except.pure]

/-! ## Matching stays inside the buffer -/

theorem space_eq {l : Language} (hw : l.WellFormed) {s : Space} (hs : s ∈ l.spaces) : space l s.id = .ok s :=
  nth_eq (hw.getElem?_spaces hs)

section Matching

variable {σ : Type} [ByteSource σ]

theorem extend_eq {n : Nat} (h : n ≤ maxInstructionSize) (start : Address) (bytes : List UInt8) (source : σ) :
    extend start bytes n source = .ok (Lifter.extend start bytes n source) := by
  unfold extend Lifter.extend
  split
  · rfl
  · rename_i hlt
    rw [window_eq (by omega) h, address_eq]
    simp only [bind, Except.bind, Address.advance]
    rcases ByteSource.fill source (start.space.address (start.offset + UInt64.ofNat bytes.length))
      (n - bytes.length) with ⟨failure | more, next⟩
    · rfl
    · rfl

/-- The encodings that are passed over are those that the context does not admit. -/
theorem select_eq {l : Language} (hw : l.WellFormed) {c : Context} (hnames : c.names = l.contextFields.map (·.name))
    (start : Address) {es : List Encoding} (hes : ∀ e ∈ es, e ∈ l.encodings) :
    ∀ (bytes : List UInt8) (source : σ),
      select l start (c.slots.map (·.resolve start)) es bytes source =
        .ok (Lifter.select l.bigEndian start (es.filter (·.isAdmitted c start)) bytes source) := by
  induction es with
  | nil => intro bytes source; rfl
  | cons e es ih =>
    intro bytes source
    have he := hw.encodings e (hes e List.mem_cons_self)
    have hrest := ih fun e' he' => hes e' (List.mem_cons_of_mem _ he')
    rw [select, admits_eq hw.contextFields hnames start he.constraints]
    by_cases hadmitted : e.isAdmitted c start = true
    · have hall : e.constraints.all (·.holds c start) = true := hadmitted
      have hfilter : (e :: es).filter (·.isAdmitted c start) = e :: es.filter (·.isAdmitted c start) :=
        List.filter_cons_of_pos hadmitted
      rw [hfilter, Lifter.select]
      simp only [bind, Except.bind, hall, if_true, extend_eq he.length_le, window_eq (Nat.zero_le _) he.length_le,
        hrest]
      rcases Lifter.extend start bytes e.length source with ⟨err | _, bytes, source⟩
      · rfl
      · by_cases hfits : e.fits (word l.bigEndian (bytes.take e.length)) = true
        · simp only [hfits, if_true]
          rfl
        · simp only [hfits]
          rfl
    · have hall : e.constraints.all (·.holds c start) = false := by simpa [Encoding.isAdmitted] using hadmitted
      have hfilter : (e :: es).filter (·.isAdmitted c start) = es.filter (·.isAdmitted c start) :=
        List.filter_cons_of_neg hadmitted
      rw [hfilter]
      simp only [bind, Except.bind, hall, hrest]
      rfl

theorem fetch_eq {e : Engine σ} (hw : e.language.WellFormed)
    (hnames : e.context.names = e.language.contextFields.map (·.name)) (offset : UInt64) :
    fetch e offset = .ok (e.fetch offset) := by
  simp only [fetch, Engine.fetch, space_eq hw hw.codeSpace_mem, highest_eq, remainder_eq hw.alignment_pos,
    address_eq, snapshot_eq, bind, Except.bind]
  split
  · rfl
  · split
    · rfl
    · exact select_eq hw hnames _ (fun _ h => h) _ _

end Matching

/-! ## Every operand is found -/

section Operands

variable {l : Language} {i : Instruction} (he : i.encoding.WellFormed l.declarations)

include he

theorem instantiate_eq : instantiate i = .ok (i.encoding.fields.map (·.extract i.word)) := by
  refine mapM_ok fun f hf => ?_
  have hwf := he.fields.each f hf
  have hlsb : f.lsb < 64 := by
    have hlength := he.length_le
    have hwidth := hwf.width_pos
    have hinside := hwf.inside
    simp only [maxInstructionSize] at hlength
    omega
  rw [extract, shiftRight, if_pos hlsb, mask_eq]
  rfl

theorem operandField_eq {f : OperandField} (hf : f ∈ i.encoding.fields) : operandField i f = .ok f :=
  lookUp_eq he.fields.distinct hf

theorem fieldValue_eq {f : OperandField} (hf : f ∈ i.encoding.fields) :
    fieldValue i (i.encoding.fields.map (·.extract i.word)) f = .ok (f.extract i.word) :=
  nth_position he.fields.distinct hf _

theorem signExtend_field {f : OperandField} (hf : f ∈ i.encoding.fields) (w : UInt64) :
    signExtend w f.width = .ok (signed f.width w) := by
  obtain ⟨hpos, hle⟩ := he.width_bounds hf
  exact signExtend_eq hpos hle w

variable (hw : l.WellFormed)

include hw

theorem tableRegister_eq {f : OperandField} (hf : f ∈ i.encoding.fields) {table : RegisterTable}
    (htable : table ∈ l.tables) :
    tableRegister l i (i.encoding.fields.map (·.extract i.word)) f table = answer (i.register f table) := by
  have htables := lookUp_eq hw.tables.distinct htable
  simp only [tableRegister, Instruction.register, fieldValue_eq he hf, htables, operandField_eq he hf, lift_ok_bind]
  rcases hentry : table.entries[(f.extract i.word).toNat]? with _ | _ | r
  · rfl
  · rfl
  · have hmem : r ∈ l.registers := (hw.tables.each table htable).declared r (List.mem_of_getElem? hentry)
    simp only [lookUp_eq hw.registers_distinct hmem]
    rfl

theorem branchTarget_relative {f : OperandField} (hf : f ∈ i.encoding.fields) {scale : Int}
    (hkind : f.kind = .relative scale) :
    branchTarget l i (i.encoding.fields.map (·.extract i.word)) f = .ok (i.relativeTarget l f scale) := by
  simp only [branchTarget, operandField_eq he hf, fieldValue_eq he hf, space_eq hw hw.codeSpace_mem, hkind,
    signExtend_field he hf, wrap_eq, bind, Except.bind]
  rfl

theorem branchTarget_absolute {f : OperandField} (hf : f ∈ i.encoding.fields) (hkind : f.kind = .absolute) :
    branchTarget l i (i.encoding.fields.map (·.extract i.word)) f = .ok (i.absoluteTarget l f) := by
  simp only [branchTarget, operandField_eq he hf, fieldValue_eq he hf, space_eq hw hw.codeSpace_mem, hkind, wrap_eq,
    bind, Except.bind]
  rfl

theorem fieldStorage_eq {f : OperandField} (hf : f ∈ i.encoding.fields) :
    fieldStorage l i (i.encoding.fields.map (·.extract i.word)) f = answer (i.fieldStorage l f) := by
  have hdeclared := (he.fields.each f hf).kind
  simp only [fieldStorage, Instruction.fieldStorage, operandField_eq he hf, fieldValue_eq he hf,
    space_eq hw hw.codeSpace_mem, lift_ok_bind]
  cases hkind : f.kind with
  | register table =>
    rw [hkind] at hdeclared
    simp only [tableRegister_eq he hw hf hdeclared]
    exact answer_map _ _
  | immediate isSigned size =>
    rw [hkind] at hdeclared
    cases isSigned with
    | true =>
      simp only [if_true, signExtend_field he hf, bitsOf_eq hdeclared.2, mask_eq]
      rfl
    | false =>
      simp only [bitsOf_eq hdeclared.2, mask_eq]
      rfl
  | relative scale =>
    simp only [branchTarget_relative he hw hf hkind]
    rfl
  | absolute =>
    simp only [branchTarget_absolute he hw hf hkind]
    rfl

theorem storage_eq {t : OperandTemplate} (ht : t.Declared l.declarations i.encoding.fields) :
    storage l i (i.encoding.fields.map (·.extract i.word)) t = answer (i.storage l t) := by
  simp only [storage, space_eq hw hw.codeSpace_mem, lift_ok_bind]
  cases t with
  | field f => exact fieldStorage_eq he hw ht
  | register r =>
    have hmem : r ∈ l.registers := ht
    simp only [lookUp_eq hw.registers_distinct hmem, lift_ok_bind]
    rfl
  | next =>
    simp only [wrap_eq, lift_ok_bind]
    rfl
  | constant | temporary | spaceNumber | start => rfl

theorem resolve_eq {op : OpTemplate} (hop : op.Declared l.declarations i.encoding.fields) :
    resolve l i (i.encoding.fields.map (·.extract i.word)) op = answer (i.resolve l op) := by
  rw [resolve, optionMapM_answer fun o ho => storage_eq he hw (hop.output o ho).1]
  refine answer_bind fun output _ => ?_
  rw [mapM_answer fun o ho => storage_eq he hw (hop.inputs o ho)]
  exact answer_bind fun inputs _ => rfl

theorem semantics_eq : semantics l i (i.encoding.fields.map (·.extract i.word)) = answer (i.semantics l) :=
  mapM_answer fun op hop => resolve_eq he hw (he.ops op hop)

theorem fieldText_eq {f : OperandField} (hf : f ∈ i.encoding.fields) :
    fieldText l i (i.encoding.fields.map (·.extract i.word)) f = answer (i.fieldText l f) := by
  have hdeclared := (he.fields.each f hf).kind
  simp only [fieldText, Instruction.fieldText, operandField_eq he hf, fieldValue_eq he hf, lift_ok_bind]
  cases hkind : f.kind with
  | register table =>
    rw [hkind] at hdeclared
    simp only [tableRegister_eq he hw hf hdeclared]
    exact answer_map _ _
  | immediate isSigned size =>
    cases isSigned with
    | true =>
      simp only [signExtend_field he hf, lift_ok_bind]
      rfl
    | false => rfl
  | relative scale =>
    simp only [branchTarget_relative he hw hf hkind]
    rfl
  | absolute =>
    simp only [branchTarget_absolute he hw hf hkind]
    rfl

theorem operandText_eq : operandText l i (i.encoding.fields.map (·.extract i.word)) = answer (i.operandText l) := by
  have hparts : i.encoding.operands.mapM (fragmentText l i (i.encoding.fields.map (·.extract i.word))) =
      answer (i.encoding.operands.mapM (i.fragmentText l)) := by
    refine mapM_answer fun p hp => ?_
    cases p with
    | literal text => rfl
    | field f => exact fieldText_eq he hw (he.operands _ hp)
  rw [operandText, hparts]
  exact answer_map _ _

/-! ## Every storage has a space -/

theorem storage_space {t : OperandTemplate} (ht : t.Declared l.declarations i.encoding.fields) {s : Storage}
    (h : i.storage l t = .ok s) : s.space ∈ l.spaces := by
  cases t with
  | field f =>
    have hdeclared := (he.fields.each f ht).kind
    simp only [Instruction.storage, Instruction.fieldStorage] at h
    split at h
    · rename_i table hkind
      rw [hkind] at hdeclared
      obtain ⟨r, hr, rfl⟩ := map_eq_ok.mp h
      exact (hw.register_declared hdeclared hr).2.space_mem
    · cases h; exact hw.constantSpace_mem
    · cases h; exact hw.codeSpace_mem
    · cases h; exact hw.codeSpace_mem
  | register r => cases h; exact (hw.registers.each r ht).space_mem
  | temporary => cases h; exact hw.uniqueSpace_mem
  | constant | spaceNumber | start | next => cases h; exact hw.constantSpace_mem

theorem resolve_spaces {t : OpTemplate} (ht : t.Declared l.declarations i.encoding.fields) {op : ResolvedOp}
    (h : i.resolve l t = .ok op) :
    (∀ s, op.output = some s → s.space ∈ l.spaces) ∧ ∀ s ∈ op.inputs, s.space ∈ l.spaces := by
  simp only [Instruction.resolve, bind_eq_ok, pure_eq_ok] at h
  obtain ⟨output, hout, inputs, hin, rfl⟩ := h
  refine ⟨?_, ?_⟩
  · rintro s rfl
    obtain ⟨o, ho, hs⟩ := optionMapM_eq_some hout
    exact storage_space he hw (ht.output o ho).1 hs
  · exact forall_of_mapM hin fun o ho s hs => storage_space he hw (ht.inputs o ho) hs

end Operands

/-! ## Calls -/

section Calls

variable {σ τ : Type} [ByteSource σ]

theorem varnode_eq {l : Language} (hw : l.WellFormed) {s : Storage} (hs : s.space ∈ l.spaces) :
    varnode l s = .ok s.varnode := by
  rw [varnode, space_eq hw hs]
  simp only [bind, Except.bind, address_eq]
  rfl

theorem emit_eq {l : Language} (hw : l.WellFormed) (a : Address) (sink : Sink MicroOp τ) {ops : List ResolvedOp}
    (hops : ∀ op ∈ ops, (∀ s, op.output = some s → s.space ∈ l.spaces) ∧ ∀ s ∈ op.inputs, s.space ∈ l.spaces) :
    ∀ t, emit l a sink ops t = .ok (sink.deliver
      (ops.map fun op => ⟨a, op.opcode, op.output.map (·.varnode), op.inputs.map (·.varnode)⟩) t) := by
  induction ops with
  | nil => intro t; rfl
  | cons op ops ih =>
    intro t
    obtain ⟨hout, hin⟩ := hops op List.mem_cons_self
    have hrecord : microOp l a op = .ok ⟨a, op.opcode, op.output.map (·.varnode), op.inputs.map (·.varnode)⟩ := by
      rw [microOp, optionMapM_ok fun s hs => varnode_eq hw (hout s hs), mapM_ok fun s hs => varnode_eq hw (hin s hs)]
      rfl
    simp only [emit, hrecord, bind, Except.bind, List.map_cons, Sink.deliver,
      ih fun op' hop' => hops op' (List.mem_cons_of_mem _ hop')]
    rcases haccept : sink.accept t ⟨a, op.opcode, op.output.map (·.varnode), op.inputs.map (·.varnode)⟩ with
      ⟨_ | fault, next⟩
    · simp only [haccept]
    · simp only [haccept]
      rfl

/-- A call whose parts have no breach is the engine's own. -/
theorem run_eq {α β : Type} {e : Engine σ} (hw : e.language.WellFormed)
    (hnames : e.context.names = e.language.contextFields.map (·.name)) {explain : Instruction → List UInt64 → Answer β}
    {plain : Instruction → Except DecodeError β} {emit : Instruction → Address → β → τ → Checked (Option Fault × τ)}
    {records : Instruction → β → List α} {sink : Sink α τ}
    (hexplain : ∀ i : Instruction, i.encoding ∈ e.language.encodings →
      explain i (i.encoding.fields.map (·.extract i.word)) = answer (plain i))
    (hemit : ∀ (i : Instruction) parts t, i.encoding ∈ e.language.encodings → plain i = .ok parts →
      emit i (e.language.codeAddress i.start) parts t = .ok (sink.deliver (records i parts) t))
    (offset : UInt64) (t : τ) :
    run e offset explain emit t = .ok (e.run offset (fun i => (plain i).map (records i)) sink t) := by
  simp only [run, Engine.run, fetch_eq hw hnames, bind, Except.bind]
  cases hfound : (e.fetch offset).result with
  | error err => rfl
  | ok i =>
    have hi : i.encoding ∈ e.language.encodings := (List.mem_filter.mp (e.fetch_ok hfound).2.2).1
    simp only [instantiate_eq (hw.encodings _ hi), hexplain i hi]
    cases hplain : plain i with
    | error err => rfl
    | ok parts =>
      have hemitted := hemit i parts t hi hplain
      rw [Language.codeAddress] at hemitted
      simp only [answer, Except.mapError, Except.map, space_eq hw hw.codeSpace_mem, address_eq, hemitted]
      rcases sink.deliver (records i parts) t with ⟨_ | fault, next⟩
      · rfl
      · rfl

theorem decode_eq {e : Engine σ} (hw : e.language.WellFormed)
    (hnames : e.context.names = e.language.contextFields.map (·.name)) (offset : UInt64) (sink : Sink MicroOp τ)
    (t : τ) : decode e offset sink t = .ok (e.decode offset sink t) := by
  refine run_eq hw hnames (fun i hi => semantics_eq (hw.encodings _ hi) hw) (fun i ops t hi hops => ?_) offset t
  refine emit_eq hw _ sink (forall_of_mapM hops fun template htemplate op hop => ?_) t
  exact resolve_spaces (hw.encodings _ hi) hw ((hw.encodings _ hi).ops template htemplate) hop

theorem disassemble_eq {e : Engine σ} (hw : e.language.WellFormed)
    (hnames : e.context.names = e.language.contextFields.map (·.name)) (offset : UInt64) (sink : Sink AssemblyLine τ)
    (t : τ) : disassemble e offset sink t = .ok (e.disassemble offset sink t) := by
  refine run_eq hw hnames (fun i hi => operandText_eq (hw.encodings _ hi) hw) (fun i text t hi htext => ?_) offset t
  simp only [Sink.deliver]
  rcases sink.accept t ⟨e.language.codeAddress i.start, i.encoding.mnemonic, text⟩ with ⟨_ | fault, next⟩
  · rfl
  · rfl

/-- The source or the sink broke down in a call that was watched. -/
def HostBroke {σ τ α : Type} (call : Call (Observed σ) (τ × List (Receipt α))) : Prop :=
  (∃ q ∈ call.engine.source.requests, ∃ fault, q.outcome = .error (.broke fault)) ∨
    ∃ r ∈ call.sink.2, ∃ fault, r.fault = some fault

/-- A fault of a call is one of its source or of its sink. -/
theorem hostBroke_of_run {α : Type} {e : Engine σ} {offset : UInt64}
    {explain : Instruction → Except DecodeError (List α)}
    (hexplain : ∀ i err, explain i = .error err → i.IsReserved err) {sink : Sink α τ} {t : τ} {a : UInt64}
    {message : String} (h : (e.run offset explain sink t).result = .error (.callbackFault a message)) :
    HostBroke (e.observed.run offset explain sink.witnessed (t, [])) := by
  have hcontained : Contained offset (e.fetch offset).result (fun _ _ => True) (e.run offset explain sink t).result
      (e.observed.run offset explain sink.witnessed (t, [])).engine.source.requests
      (e.observed.run offset explain sink.witnessed (t, [])).sink.2 :=
    Engine.run_contained hexplain (fun _ _ _ _ => trivial) sink t
  rcases (hcontained.callbackFault a message h).2 with ⟨q, hq, fault, hfault, -⟩ | ⟨r, hr, fault, hfault, -⟩
  · exact .inl ⟨q, hq, fault, hfault⟩
  · exact .inr ⟨r, hr, fault, hfault⟩

/-- No call on an accepted language has a breach, whatever was done to its context; so a fault is always
    one of the source or of the sink. -/
theorem calls_without_breach {root : Element} (engine : Engine σ) (offset : UInt64) (ops : List ContextOp)
    (accepted : Language.ofElement root = .ok engine.language)
    (reached : engine.context = (Context.ofFields engine.language.contextFields).performAll ops) :
    (∀ (τ : Type) (sink : Sink MicroOp τ) (t : τ),
      decode engine offset sink t = .ok (engine.decode offset sink t) ∧
        ∀ a message, contained offset (decode engine offset sink t) = .error (.callbackFault a message) →
          HostBroke (engine.observed.decode offset sink.witnessed (t, []))) ∧
    (∀ (τ : Type) (sink : Sink AssemblyLine τ) (t : τ),
      disassemble engine offset sink t = .ok (engine.disassemble offset sink t) ∧
        ∀ a message, contained offset (disassemble engine offset sink t) = .error (.callbackFault a message) →
          HostBroke (engine.observed.disassemble offset sink.witnessed (t, []))) := by
  have hw := ofElement_wellFormed accepted
  have hnames : engine.context.names = engine.language.contextFields.map (·.name) := by
    rw [reached, Context.names_performAll, Context.names_ofFields]
  refine ⟨fun τ sink t => ?_, fun τ sink t => ?_⟩
  · have heq := decode_eq hw hnames offset sink t
    refine ⟨heq, fun a message h => ?_⟩
    rw [heq] at h
    exact hostBroke_of_run (fun i err herr => Engine.microOps_error herr) h
  · have heq := disassemble_eq hw hnames offset sink t
    refine ⟨heq, fun a message h => ?_⟩
    rw [heq] at h
    exact hostBroke_of_run (fun i err herr => Engine.assembly_error herr) h

/-- Made wide by default, the sample language decodes `jump`, every step of it checked. -/
theorem calls_without_breach_jump :
    let engine : Engine FlatImage := ⟨⟨0, [0x20, 0x05]⟩, Sample.language,
      (Context.ofFields Sample.language.contextFields).performAll [.setDefault "wide" 1], [], 0⟩
    Language.ofElement Sample.root = .ok engine.language ∧
      contained 0 (decode engine 0 Sink.ops .empty) = .ok 2 ∧
      (∀ (τ : Type) (sink : Sink MicroOp τ) (t : τ),
        decode engine 0 sink t = .ok (engine.decode 0 sink t) ∧
          ∀ a message, contained 0 (decode engine 0 sink t) = .error (.callbackFault a message) →
            HostBroke (engine.observed.decode 0 sink.witnessed (t, []))) ∧
      (∀ (τ : Type) (sink : Sink AssemblyLine τ) (t : τ),
        disassemble engine 0 sink t = .ok (engine.disassemble 0 sink t) ∧
          ∀ a message, contained 0 (disassemble engine 0 sink t) = .error (.callbackFault a message) →
            HostBroke (engine.observed.disassemble 0 sink.witnessed (t, []))) :=
  ⟨Sample.accepted, by rfl, calls_without_breach _ 0 _ Sample.accepted rfl⟩

end Calls

end Lifter.Checked

namespace Lifter.Engine

/-! ## Contexts read by position -/

section Positions

variable {σ : Type} [ByteSource σ] {e : Engine σ} {offset : UInt64}

/-- The calls at `offset` are those of the checked decoder, which takes the values of all fields and looks up what
    a condition asks for at the position of its field. -/
def ReadsByPosition (e : Engine σ) (offset : UInt64) : Prop :=
  (∀ {τ : Type} (sink : Sink MicroOp τ) (t : τ), Checked.decode e offset sink t = .ok (e.decode offset sink t)) ∧
    ∀ {τ : Type} (sink : Sink AssemblyLine τ) (t : τ),
      Checked.disassemble e offset sink t = .ok (e.disassemble offset sink t)

theorem readsByPosition (hw : e.language.WellFormed)
    (hnames : e.context.names = e.language.contextFields.map (·.name)) : e.ReadsByPosition offset :=
  ⟨fun sink t => Checked.decode_eq hw hnames offset sink t,
    fun sink t => Checked.disassemble_eq hw hnames offset sink t⟩

theorem readsByPosition_performAll (hw : e.language.WellFormed) {ops : List ContextOp}
    (hreached : e.context = (Context.ofFields e.language.contextFields).performAll ops) :
    e.ReadsByPosition offset := by
  refine readsByPosition hw ?_
  rw [hreached, Context.names_performAll, Context.names_ofFields]

/-- A store without the fields of the language is no context for it: what `jump` asks for has no position there. -/
example : Checked.fetch (⟨⟨0, [0x20, 0x05]⟩, Sample.language, .ofFields [], [], 0⟩ : Engine FlatImage) 0 =
    .error (.index 0 0) := by rfl

end Positions

end Lifter.Engine
