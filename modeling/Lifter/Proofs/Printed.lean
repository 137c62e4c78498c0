/-
  Lifter.Proofs.Printed — the operands that are printed and those that are handed over.

  The fields of an instruction are interpreted twice: once as text, once as storage. The
  text of a register field is a name under which the register is found, and it is
  that register which is handed over, its offset unchanged by wrapping. Fields that
  point into code print the offset that is handed over. An immediate prints its number;
  the constant that is handed over is that number cut off to the size of the immediate,
  from which it can be read back if the size covers the width of the field. A field
  with no size of its own has such a size (`DescribesField`). All of it together is
  `Engine.text_names_operands`.
-/

import Lifter.Proofs.Operands

namespace Lifter

open Specification

/-! ## Fields as they are declared -/

/-- The field has the declared name, and if the size of an immediate is not declared, one that covers its
    width. -/
structure DescribesField (el : Element) (f : OperandField) : Prop where
  name : el.attribute? "name" = some f.name
  covered : ∀ isSigned size, f.kind = .immediate isSigned size → el.attribute? "size" = none → f.width ≤ 8 * size

theorem smallNumber_lt {el : Element} {name : String} {n : Nat} (h : smallNumber el name = .ok n) :
    n < UInt32.size := by
  obtain ⟨text, -, h⟩ := exceptBind_eq_ok.mp h
  split at h
  · simp [invalid] at h
  · split at h
    · cases h
      assumption
    · simp [invalid] at h

theorem readFieldKind_covered {d : Declarations} {el : Element} {width : Nat} (hwidth : width < UInt32.size)
    {isSigned : Bool} {size : Nat} (h : readFieldKind d el width = .ok (.immediate isSigned size))
    (hnone : el.attribute? "size" = none) : width ≤ 8 * size := by
  rcases readFieldKind_cases h with ⟨_, table, -, -, hkind⟩ | ⟨isSigned', size', hkind, hsize⟩ | ⟨scale, hkind, -⟩ | hkind
  · cases hkind
  · cases hkind
    obtain ⟨n, hn, hrange⟩ := exceptBind_eq_ok.mp hsize
    obtain ⟨-, hsize, -⟩ := inRange_eq_ok.mp hrange
    rw [numberOr, hnone] at hn
    cases hn
    have hdefault : (UInt64.ofNat ((width + 7) / 8)).toNat = (width + 7) / 8 := by
      rw [UInt64.toNat_ofNat']
      exact Nat.mod_eq_of_lt (by change width < 4294967296 at hwidth; omega)
    omega
  · cases hkind
  · cases hkind

theorem readOperandField_describes {d : Declarations} {mnemonic : String} {length : Nat} {fields : List OperandField}
    {el : Element} {f : OperandField} (h : readOperandField d mnemonic length fields el = .ok f) :
    DescribesField el f := by
  have hreads := readOperandField_reads h
  refine ⟨hreads.name, fun isSigned size hkind hnone => ?_⟩
  have hread := hreads.kind
  rw [hkind] at hread
  exact readFieldKind_covered (smallNumber_lt hreads.width) hread hnone

theorem DeclaredBy.fields {root el : Element} {l : Language} {e : Encoding} (h : DeclaredBy root l e el) :
    List.Forall₂ DescribesField (el.childrenNamed "field") e.fields :=
  h.fields_read.imp fun _ _ ⟨_, hf⟩ => readOperandField_describes hf

/-! ## Immediates -/

namespace Instruction

/-- The number of an immediate field. -/
def number (i : Instruction) (f : OperandField) (isSigned : Bool) : Int :=
  if isSigned then signed f.width (f.extract i.word) else (f.extract i.word).toNat

theorem signedText_natCast (n : Nat) : signedText n = Text.hexNat n := by
  rw [signedText, if_neg (by omega), Int.toNat_natCast]

theorem fieldText_immediate {i : Instruction} {l : Language} {f : OperandField} {isSigned : Bool} {size : Nat}
    (hkind : f.kind = .immediate isSigned size) : i.fieldText l f = .ok (signedText (i.number f isSigned)) := by
  cases isSigned with
  | true => simp [fieldText, hkind, number]
  | false => simp [fieldText, hkind, number, signedText_natCast, Text.hex]

/-- The constant is the number, cut off to the size. -/
theorem toNat_immediate (i : Instruction) (f : OperandField) (isSigned : Bool) {size : Nat} (hsize : size ≤ 8) :
    ((i.immediate f isSigned size).toNat : Int) = i.number f isSigned % (capacity (8 * size) : Nat) := by
  cases isSigned with
  | true =>
    simp only [immediate, number, if_true]
    exact toNat_ofInt_and_lowMask (by omega) _
  | false =>
    simp only [immediate, number, Bool.false_eq_true, if_false]
    rw [toNat_and_lowMask, Nat.min_eq_left (by omega), Int.natCast_emod]

end Instruction

theorem OperandField.toNat_extract_lt (f : OperandField) (word : UInt64) : (f.extract word).toNat < capacity f.width := by
  rw [extract, toNat_and_lowMask]
  exact Nat.lt_of_lt_of_le (Nat.mod_lt _ (capacity_pos _)) (capacity_mono (Nat.min_le_left _ _))

/-- The number that `size` bytes stand for. -/
def readBack (isSigned : Bool) (size : Nat) (bits : UInt64) : Int :=
  if isSigned then signed (8 * size) bits else bits.toNat

/-- A size that covers the field loses nothing of the number. -/
theorem Instruction.readBack_immediate (i : Instruction) {f : OperandField} (hwidth : 1 ≤ f.width) (isSigned : Bool)
    {size : Nat} (hsize : size ≤ 8) (hcovers : f.width ≤ 8 * size) :
    readBack isSigned size (i.immediate f isSigned size) = i.number f isSigned := by
  have hoffset := i.toNat_immediate f isSigned hsize
  have hle : capacity f.width ≤ capacity (8 * size) := capacity_mono hcovers
  cases isSigned with
  | true =>
    simp only [readBack, number, if_true] at hoffset ⊢
    obtain ⟨hlow, hhigh⟩ := signed_bounds hwidth (f.extract i.word)
    exact signed_of_emod hoffset (by omega) (by omega)
  | false =>
    simp only [readBack, number, Bool.false_eq_true, if_false] at hoffset ⊢
    have hlt := f.toNat_extract_lt i.word
    rw [hoffset]
    exact Int.emod_eq_of_lt (by omega) (by omega)

/-! ## One field -/

/-- `text` shows the number `n` of a field of `width` bits, and `v` is the constant of `size` bytes for it. -/
structure ShowsNumber (l : Language) (n : Int) (isSigned : Bool) (width size : Nat) (text : String) (v : Varnode) :
    Prop where
  shown : text = Instruction.signedText n
  space : v.address.space = l.constantSpace
  size_eq : v.size = size
  offset : (v.address.offset.toNat : Int) = n % (capacity (8 * size) : Nat)
  recovered : width ≤ 8 * size → n = readBack isSigned size v.address.offset

/-- What is printed for a field and the varnode that is handed over for it are one operand. -/
def Engine.NamesOperand {σ : Type} (e : Engine σ) (i : Instruction) (f : OperandField) (text : String) (v : Varnode) :
    Prop :=
  match f.kind with
  | .register _ => e.register? text = some v ∧ (e.language.register? text).map (·.storage) = some v.storage
  | .immediate isSigned size => ShowsNumber e.language (i.number f isSigned) isSigned f.width size text v
  | .relative _ | .absolute => v.address.space = e.language.codeSpace ∧ text = Text.hex v.address.offset

/-- Text and storage of a field agree. -/
theorem Instruction.namesOperand {σ : Type} {e : Engine σ} {i : Instruction} (hw : e.language.WellFormed)
    (hconstant : e.language.constantSpace = constantSpace e.language.bigEndian) {length : Nat} {f : OperandField}
    (hf : f.WellFormed e.language.declarations length) {text : String} {v : Varnode}
    (htext : i.fieldText e.language f = .ok text) (hv : i.varnode e.language (.field f) = .ok v) :
    e.NamesOperand i f text v := by
  obtain ⟨s, hs, rfl⟩ := map_eq_ok.mp hv
  have hstorage : s.varnode.storage = s := (fieldStorage_fits hw hconstant hf.kind hs).storage_varnode
  have hoffset : s.varnode.address.offset = s.offset := congrArg Storage.offset hstorage
  have hkindDeclared := hf.kind
  simp only [storage, fieldStorage] at hs
  simp only [Engine.NamesOperand]
  cases hkind : f.kind with
  | register table =>
    simp only [hkind, FieldKind.Declared] at hs hkindDeclared
    simp only [fieldText, hkind] at htext
    obtain ⟨r, hr, rfl⟩ := map_eq_ok.mp hs
    rw [hr] at htext
    cases htext
    have hfound : e.language.register? r.name = some r :=
      hw.registers.index.register?_name (hw.register_declared hkindDeclared hr).1
    refine ⟨by rw [Engine.register?, hfound, Option.map_some], ?_⟩
    rw [hfound, Option.map_some, hstorage]
  | immediate isSigned size =>
    simp only [hkind, FieldKind.Declared] at hs hkindDeclared
    cases hs
    rw [fieldText_immediate hkind] at htext
    cases htext
    refine ⟨rfl, rfl, rfl, ?_, fun hcovers => ?_⟩
    · rw [hoffset]
      exact i.toNat_immediate f isSigned hkindDeclared.2
    · rw [hoffset]
      exact (i.readBack_immediate hf.width_pos isSigned hkindDeclared.2 hcovers).symm
  | relative | absolute =>
    simp only [hkind] at hs
    cases hs
    simp only [fieldText, hkind] at htext
    cases htext
    exact ⟨rfl, by rw [hoffset]⟩

/-! ## All fields -/

namespace Instruction

/-- Where the operand text has the field, the parts have this text. -/
def Prints (i : Instruction) (parts : List String) (f : OperandField) (text : String) : Prop :=
  (.field f, text) ∈ i.encoding.operands.zip parts

/-- Where a template has the field, the record of it has this varnode. -/
def Emits (i : Instruction) (records : List MicroOp) (f : OperandField) (v : Varnode) : Prop :=
  ∃ t op, (t, op) ∈ i.encoding.ops.zip records ∧ (.field f, v) ∈ t.operands.zip op.varnodes

theorem assembly_parts {i : Instruction} {l : Language} {lines : List AssemblyLine}
    (h : Engine.assembly l i = .ok lines) :
    ∃ parts, List.Forall₂ (fun p text => i.fragmentText l p = .ok text) i.encoding.operands parts ∧
      lines = [⟨l.codeAddress i.start, i.encoding.mnemonic, String.join parts⟩] := by
  obtain ⟨text, htext, rfl⟩ := map_eq_ok.mp h
  obtain ⟨parts, hparts, rfl⟩ := map_eq_ok.mp htext
  exact ⟨parts, mapM_eq_ok.mp hparts, rfl⟩

theorem Lifts.shape {i : Instruction} {l : Language} {t : OpTemplate} {op : MicroOp} (h : i.Lifts l t op) :
    op.output.isSome = t.output.isSome ∧ op.inputs.length = t.inputs.length := by
  refine ⟨?_, h.inputs.length_eq.symm⟩
  have houtput := h.output
  generalize t.output = o at houtput ⊢
  generalize op.output = p at houtput ⊢
  cases houtput <;> rfl

end Instruction

namespace Engine

variable {σ τ υ : Type}

/-- Each part of the operand text is printed and each operand of the micro-operations handed over; a field
    that is both printed and handed over is the same operand there and here. -/
structure NamesOperands (e : Engine σ) (i : Instruction) (parts : List String) (records : List MicroOp) : Prop where
  printed : List.Forall₂ (fun p text => ∀ s, p = .literal s → text = s) i.encoding.operands parts
  handedOver : List.Forall₂ (fun (t : OpTemplate) (op : MicroOp) =>
    op.output.isSome = t.output.isSome ∧ op.inputs.length = t.inputs.length) i.encoding.ops records
  fields : ∀ f text v, i.Prints parts f text → i.Emits records f v → e.NamesOperand i f text v

theorem namesOperands {e : Engine σ} {i : Instruction} (hw : e.language.WellFormed)
    (hconstant : e.language.constantSpace = constantSpace e.language.bigEndian)
    (hi : i.encoding ∈ e.language.encodings) {parts : List String} {records : List MicroOp}
    (hparts : List.Forall₂ (fun p text => i.fragmentText e.language p = .ok text) i.encoding.operands parts)
    (hrecords : microOps e.language i = .ok records) : e.NamesOperands i parts records := by
  have he := hw.encodings _ hi
  have hlifts := Instruction.microOps_lifts hrecords
  refine ⟨hparts.imp ?_, hlifts.imp fun _ _ h => h.shape, ?_⟩
  · rintro p text htext s rfl
    cases htext
    rfl
  · rintro f text v hprints ⟨t, op, hop, hoperand⟩
    have htext : i.fieldText e.language f = .ok text := List.forall₂_zip hparts hprints
    have hv : i.varnode e.language (.field f) = .ok v :=
      List.forall₂_zip (List.forall₂_zip hlifts hop).operands hoperand
    have hf : f ∈ i.encoding.fields := he.operands _ (List.of_mem_zip hprints).1
    exact Instruction.namesOperand hw hconstant (he.fields.each f hf) htext hv

/-- The line and the micro-operations are those of one instruction of the description, and name the same
    operands. -/
def TextNamesOperands [ByteSource σ] (root : Element) (e : Engine σ) (offset : UInt64) (decoded : Seen MicroOp)
    (shown : Seen AssemblyLine) : Prop :=
  ∃ i el parts, (e.fetch offset).result = .ok i ∧ DeclaredBy root e.language i.encoding el ∧
    List.Forall₂ DescribesField (el.childrenNamed "field") i.encoding.fields ∧
    shown.records = [⟨e.language.codeAddress offset, i.encoding.mnemonic, String.join parts⟩] ∧
    e.NamesOperands i parts decoded.records

/-- Where an instruction of an accepted language is both decoded and printed, the text names the operands
    that are handed over. -/
theorem text_names_operands [ByteSource σ] {root : Element} (engine : Engine σ) (offset : UInt64)
    (accepted : Language.ofElement root = .ok engine.language) (ops : Sink MicroOp τ) (lines : Sink AssemblyLine υ)
    (t : τ) (u : υ) {n m : Nat} (decoded : (engine.seenDecode offset ops t).result = .ok n)
    (shown : (engine.seenDisassemble offset lines u).result = .ok m) :
    TextNamesOperands root engine offset (engine.seenDecode offset ops t) (engine.seenDisassemble offset lines u) := by
  obtain ⟨i, hfound, hrecords⟩ := seenRun_of_ok decoded
  obtain ⟨j, hfound', hlines⟩ := seenRun_of_ok shown
  rw [hfound] at hfound'
  cases hfound'
  obtain ⟨-, hstart, -⟩ := engine.fetch_ok hfound
  have hi : i.encoding ∈ engine.language.encodings := engine.fetch_declared hfound
  obtain ⟨el, hel⟩ := exists_declaredBy accepted hi
  obtain ⟨parts, hparts, hline⟩ := Instruction.assembly_parts hlines
  rw [hstart] at hline
  exact ⟨i, el, parts, hfound, hel, hel.fields, hline,
    namesOperands (ofElement_wellFormed accepted) (ofElement_constantSpace accepted) hi hparts hrecords⟩

end Engine

namespace Sample

/-- Eight signed bits, as a constant of two bytes. -/
def amount : OperandField := ⟨"v", 0, 8, .immediate true 2⟩

def selector : OperandField := ⟨"r", 8, 2, .register table⟩

def add : Encoding where
  mnemonic := "add"
  length := 2
  mask := 0xfc00
  bits := 0x1000
  constraints := []
  fields := [selector, amount]
  operands := [.field selector, .literal ", ", .field amount]
  ops := [⟨.intAdd, some (.field selector), [.field selector, .field amount]⟩]

def addElement : Element :=
  ⟨"instruction",
    [("mnemonic", "add"), ("length", "2"), ("mask", "0xfc00"), ("match", "0x1000"), ("operands", "{r}, {v}")],
    "",
    [leaf "field" [("name", "r"), ("lsb", "8"), ("width", "2"), ("kind", "register"), ("table", "ab")],
      leaf "field"
        [("name", "v"), ("lsb", "0"), ("width", "8"), ("kind", "immediate"), ("signed", "true"), ("size", "2")],
      leaf "op" [("code", "INT_ADD"), ("out", "r"), ("in", "r v")]]⟩

theorem add_accepted : Language.ofElement (rootWith addElement) = .ok (languageWith add) := by rfl

end Sample

/-- A register and a negative number. -/
theorem Engine.text_names_operands_add :
    let engine := Engine.ofLanguage (⟨0, [0x11, 0xfe]⟩ : FlatImage) (Sample.languageWith Sample.add)
    Language.ofElement (Sample.rootWith Sample.addElement) = .ok engine.language ∧
      (engine.seenDecode 0 Sink.ops .empty).result = .ok 2 ∧
      (engine.seenDisassemble 0 Sink.lines .empty).result = .ok 2 ∧
      (engine.disassemble 0 Sink.lines .empty).sink = ⟨[⟨"ram", 0, "add", "B, -0x2"⟩]⟩ ∧
      (engine.decode 0 Sink.ops .empty).sink =
        ⟨[⟨0, .intAdd, some ⟨"register", 1, 1⟩, [⟨"register", 1, 1⟩, ⟨"const", 0xfffe, 2⟩]⟩]⟩ ∧
      Engine.TextNamesOperands (Sample.rootWith Sample.addElement) engine 0 (engine.seenDecode 0 Sink.ops .empty)
        (engine.seenDisassemble 0 Sink.lines .empty) :=
  ⟨Sample.add_accepted, by rfl, by rfl, by decide +kernel, by decide +kernel,
    Engine.text_names_operands _ 0 Sample.add_accepted _ _ _ _ (by rfl) (by rfl)⟩

end Lifter
