/-
  Lifter.Proofs.Constants — operands that are values.

  Five kinds of expressions stand for a value and not for a place: `#value:size`, the name
  of an immediate field, `@space`, `inst_start` and `inst_next`. The value is cut off to the
  size of the operand at different times, the literal when the description is read, the
  others when the instruction is resolved, and by different masks. `Instruction.Denotes`
  says over the integers which value each of them has; every operand that is handed over
  for such an expression is that value in the space of the constants
  (`Engine.constants_canonical`). The space of the constants has offsets of eight bytes, so
  making a varnode of the operand wraps nothing (`Instruction.handsOverConstant`).
-/

import Lifter.Proofs.Targets

namespace Lifter

open Specification

/-! ## Expressions -/

/-- The expression is that of the integer `value` in `size` bytes. -/
def SpellsConstant (text : String) (value : Int) (size : Nat) : Prop :=
  ∃ digits sizeDigits n, text.toList = '#' :: (digits ++ ':' :: sizeDigits) ∧ ':' ∉ digits ∧
    integer? digits = some value ∧ number? sizeDigits = some n ∧ n.toNat = size

/-- The expression has none of the forms that come before the names of fields. -/
structure IsName (text : String) : Prop where
  ne_start : text ≠ "inst_start"
  ne_next : text ≠ "inst_next"
  unmarked : ∀ c ∈ text.toList.head?, c ≠ '#' ∧ c ≠ '$' ∧ c ≠ '@'

namespace SpellsConstant

variable {text : String} {value : Int} {size : Nat}

/-- If the expression is read at all, its size is one of a word, and the value is cut off to it. -/
theorem of_readOperand (h : SpellsConstant text value size) {spaces : List Space} {registers : RegisterStore}
    {fields : List OperandField} {o : OperandTemplate} (ho : readOperand spaces registers fields text = .ok o) :
    (1 ≤ size ∧ size ≤ 8) ∧ o = .constant (UInt64.ofInt value &&& lowMask (8 * size)) size := by
  obtain ⟨digits, sizeDigits, n, htext, hcolon, hvalue, hn, rfl⟩ := h
  simp only [readOperand, htext, readSized, span_append hcolon, hvalue, hn] at ho
  obtain ⟨r, hr, rfl⟩ := map_eq_ok.mp ho
  by_cases hsize : 1 ≤ n.toNat ∧ n.toNat ≤ 8
  · rw [if_pos hsize] at hr
    cases hr
    exact ⟨hsize, rfl⟩
  · rw [if_neg hsize] at hr
    cases hr

end SpellsConstant

/-- A name is looked up among the fields first. -/
theorem IsName.readOperand_field {text : String} (h : IsName text) (spaces : List Space) (registers : RegisterStore)
    {fields : List OperandField} (hd : (fields.map (·.name)).Nodup) {f : OperandField} (hf : f ∈ fields)
    (hname : f.name = text) : readOperand spaces registers fields text = .ok (.field f) := by
  have hfound : fields.find? (·.name == text) = some f := hname ▸ Checked.find?_name_eq hd hf
  have hnamed : readNamed fields registers text = .ok (.field f) := by
    unfold readNamed
    rw [if_neg h.ne_start, if_neg h.ne_next, hfound]
  have hmark := h.unmarked
  unfold readOperand
  split
  · rename_i htext
    rw [htext] at hmark
    exact absurd rfl (hmark '#' rfl).1
  · rename_i htext
    rw [htext] at hmark
    exact absurd rfl (hmark '$' rfl).2.1
  · rename_i htext
    rw [htext] at hmark
    exact absurd rfl (hmark '@' rfl).2.2
  · exact hnamed

theorem readOperand_space {spaces : List Space} (hd : (spaces.map (·.name)).Nodup) {s : Space} (hs : s ∈ spaces)
    {text : String} (htext : text.toList = '@' :: s.name.toList) (registers : RegisterStore)
    (fields : List OperandField) : readOperand spaces registers fields text = .ok (.spaceNumber s) := by
  simp only [readOperand, htext, String.ofList_toList, Checked.find?_name_eq hd hs]

theorem readOperand_start (spaces : List Space) (registers : RegisterStore) (fields : List OperandField) :
    readOperand spaces registers fields "inst_start" = .ok .start := rfl

theorem readOperand_next (spaces : List Space) (registers : RegisterStore) (fields : List OperandField) :
    readOperand spaces registers fields "inst_next" = .ok .next := rfl

/-! ## Values -/

namespace Instruction

/-- The number that a field holds, with its sign if it has one. -/
def fieldNumber (i : Instruction) (f : OperandField) (isSigned : Bool) : Int :=
  let raw := (f.extract i.word).toNat
  if isSigned then twosComplement f.width raw else raw

/-- In the instruction at `offset`, the expression has this value in so many bytes. The number of a space is its
    position, as a word. -/
inductive Denotes (i : Instruction) (l : Language) (offset : UInt64) : String → Int → Nat → Prop
  | constant {text : String} {value : Int} {size : Nat} : SpellsConstant text value size →
      Denotes i l offset text (value % capacity (8 * size)) size
  | immediate {f : OperandField} {isSigned : Bool} {size : Nat} : f ∈ i.encoding.fields → IsName f.name →
      f.kind = .immediate isSigned size →
      Denotes i l offset f.name (i.fieldNumber f isSigned % capacity (8 * size)) size
  | spaceNumber {text : String} {n : Nat} {s : Space} : l.spaces[n]? = some s → text.toList = '@' :: s.name.toList →
      Denotes i l offset text (n % capacity (8 * 8)) 8
  | start : Denotes i l offset "inst_start" offset.toNat l.codeSpace.addressSize
  | next : Denotes i l offset "inst_next" ((offset.toNat + i.length) % capacity (8 * l.codeSpace.addressSize))
      l.codeSpace.addressSize

/-- The expression is handed over as this value, which is what it was resolved to and fits the size. -/
structure HandsOverConstant (i : Instruction) (l : Language) (text : String) (v : Varnode) (value : Int) (size : Nat) :
    Prop where
  unchanged : ∃ o, readOperand l.spaces l.registerStore i.encoding.fields text = .ok o ∧ i.storage l o = .ok v.storage
  space_eq : v.address.space = l.constantSpace
  size_eq : v.size = size
  size_bounds : 1 ≤ v.size ∧ v.size ≤ 8
  offset_eq : (v.address.offset.toNat : Int) = value
  canonical : v.address.offset.toNat < capacity (8 * v.size)

variable {i : Instruction} {l : Language} {text : String} {v : Varnode}

/-- Whatever constant an operand is resolved to is handed over. -/
theorem handsOverConstant (hconstant : l.constantSpace = constantSpace l.bigEndian) {o : OperandTemplate}
    (ho : readOperand l.spaces l.registerStore i.encoding.fields text = .ok o) {w : UInt64} {size : Nat}
    (hs : i.storage l o = .ok ⟨l.constantSpace, w, size⟩) (hv : i.StandsFor l text v) {value : Int}
    (hvalue : (w.toNat : Int) = value) (hsize : 1 ≤ size ∧ size ≤ 8) (hfits : w.toNat < capacity (8 * size)) :
    i.HandsOverConstant l text v value size := by
  have hwrap : Storage.Fits ⟨l.constantSpace, w, size⟩ := by
    rw [hconstant]
    exact constantSpace_fits l.bigEndian w size
  obtain ⟨o', ho', hv⟩ := hv
  rw [ho] at ho'
  cases ho'
  rw [varnode, hs] at hv
  cases hv
  have hoffset : (Storage.varnode ⟨l.constantSpace, w, size⟩).address.offset = w := hwrap
  refine ⟨⟨o, ho, ?_⟩, rfl, rfl, hsize, ?_, ?_⟩
  · rw [hwrap.storage_varnode, hs]
  · rw [hoffset, hvalue]
  · rw [hoffset]
    exact hfits

theorem lt_capacity_of_emod {w : UInt64} {n : Int} {bits : Nat} (h : (w.toNat : Int) = n % (capacity bits : Nat)) :
    w.toNat < capacity bits := by
  have hpos := capacity_pos bits
  have hlt := Int.emod_lt_of_pos n (b := (capacity bits : Nat)) (by omega)
  omega

theorem number_eq_fieldNumber (i : Instruction) (f : OperandField) (isSigned : Bool) :
    i.number f isSigned = i.fieldNumber f isSigned := by
  cases isSigned with
  | true => simp [number, fieldNumber, signed_eq_twosComplement (f.toNat_extract_lt i.word)]
  | false => simp [number, fieldNumber]

/-- In an instruction of the language, an expression that has a value is handed over as it. -/
theorem Denotes.handsOver (hw : l.WellFormed) (hconstant : l.constantSpace = constantSpace l.bigEndian)
    (hi : i.encoding ∈ l.encodings) (hin : l.InPlace i.start) {value : Int} {size : Nat}
    (h : i.Denotes l i.start text value size) (hv : i.StandsFor l text v) : i.HandsOverConstant l text v value size := by
  have he := hw.encodings _ hi
  have hcode := hw.codeSpace_regular
  have hextent : l.codeSpace.extent = capacity (8 * l.codeSpace.addressSize) := hcode.extent_eq
  have hcodeSize : 1 ≤ l.codeSpace.addressSize ∧ l.codeSpace.addressSize ≤ 8 :=
    ⟨hcode.addressSize_pos, hcode.addressSize_le⟩
  cases h with
  | @constant _ literal size hspells =>
    obtain ⟨o, ho, -⟩ := id hv
    obtain ⟨hsize, rfl⟩ := hspells.of_readOperand ho
    have hbits : 8 * size ≤ 64 := by omega
    have hvalue := toNat_ofInt_and_lowMask hbits literal
    exact handsOverConstant hconstant ho rfl hv hvalue hsize (lt_capacity_of_emod hvalue)
  | @immediate f isSigned size hf hname hkind =>
    have hread := hname.readOperand_field l.spaces l.registerStore he.fields.distinct hf rfl
    have hsize : 1 ≤ size ∧ size ≤ 8 := by
      have hdeclared := (he.fields.each f hf).kind
      rwa [hkind] at hdeclared
    have hs : i.storage l (.field f) = .ok ⟨l.constantSpace, i.immediate f isSigned size, size⟩ := by
      simp only [storage, fieldStorage, hkind]
    have hvalue := i.toNat_immediate f isSigned hsize.2
    rw [number_eq_fieldNumber] at hvalue
    exact handsOverConstant hconstant hread hs hv hvalue hsize (lt_capacity_of_emod hvalue)
  | @spaceNumber _ n s hs htext =>
    have hread := readOperand_space hw.spaces.distinct (List.mem_of_getElem? hs) htext l.registerStore i.encoding.fields
    have hid : s.id.index = n := hw.spaces.numbered n s hs
    have hvalue : ((UInt64.ofNat s.id.index).toNat : Int) = n % (capacity (8 * 8) : Nat) := by
      rw [UInt64.toNat_ofNat', hid]
      rfl
    exact handsOverConstant hconstant hread rfl hv hvalue (by omega) (lt_capacity_of_emod hvalue)
  | start =>
    have hlt : i.start.toNat < capacity (8 * l.codeSpace.addressSize) := by
      have hle := UInt64.le_iff_toNat_le.mp hin.1
      have hpos := capacity_pos (8 * l.codeSpace.addressSize)
      rw [Space.toNat_highest, hextent] at hle
      omega
    exact handsOverConstant hconstant (readOperand_start _ _ _) rfl hv rfl hcodeSize hlt
  | next =>
    have hnext := i.toNat_nextOffset l
    rw [hextent] at hnext
    have hvalue : ((i.nextOffset l).toNat : Int) =
        (i.start.toNat + i.length) % capacity (8 * l.codeSpace.addressSize) := by
      rw [hnext, Int.natCast_emod, Int.natCast_add]
    exact handsOverConstant hconstant (readOperand_next _ _ _) rfl hv hvalue hcodeSize
      (hnext ▸ Nat.mod_lt _ (capacity_pos _))

end Instruction

/-- For every accepted language and every instruction found in it: an expression that denotes a value is handed over
    as it, unchanged and in the space of the constants. If the call succeeds, each expression is handed over. -/
theorem Engine.constants_canonical {σ τ : Type} [ByteSource σ] {root : Element} (engine : Engine σ) (offset : UInt64)
    (accepted : Language.ofElement root = .ok engine.language) (sink : Sink MicroOp τ) (t : τ) {i : Instruction}
    (found : (engine.fetch offset).result = .ok i) :
    (∀ text v, engine.HandsOver root offset sink t text v → ∀ value size,
      i.Denotes engine.language offset text value size → i.HandsOverConstant engine.language text v value size) ∧
      ∀ n, (engine.seenDecode offset sink t).result = .ok n →
        ∃ el, DeclaredBy root engine.language i.encoding el ∧ ∀ opEl ∈ el.childrenNamed "op",
          ∀ text ∈ opEl.operandExpressions, ∃ v, engine.HandsOver root offset sink t text v := by
  have hw := ofElement_wellFormed accepted
  obtain ⟨hin, hstart, -⟩ := engine.fetch_ok found
  constructor
  · intro text v handed value size denoted
    rw [← hstart] at hin denoted
    exact denoted.handsOver hw (ofElement_constantSpace accepted) (engine.fetch_declared found) hin
      (handed.standsFor_of_fetch found)
  · intro n hn
    obtain ⟨j, el, hfound, hel, hhanded⟩ := handsOver_of_ok accepted hn
    rw [found] at hfound
    cases hfound
    exact ⟨el, hel, hhanded⟩

namespace Sample

/-- Eight signed bits, as a constant of four bytes. -/
def level : OperandField := ⟨"v", 0, 8, .immediate true 4⟩

theorem level_isName : IsName level.name := by
  refine ⟨by decide, by decide, ?_⟩
  intro c hc
  have hv : c = 'v' := (Option.some.inj hc).symm
  rw [hv]
  decide

def pack : Encoding where
  mnemonic := "pack"
  length := 2
  mask := 0xff00
  bits := 0x3000
  constraints := []
  fields := [level]
  operands := [.field level]
  ops := [⟨.callOther, none, [.constant 0xfffe 2, .field level, .spaceNumber ram, .start, .next]⟩]

def packOpElement : Element := leaf "op" [("code", "CALLOTHER"), ("in", "#-2:2 v @ram inst_start inst_next")]

def packElement : Element :=
  ⟨"instruction", [("mnemonic", "pack"), ("length", "2"), ("mask", "0xff00"), ("match", "0x3000"), ("operands", "{v}")],
    "",
    [leaf "field"
        [("name", "v"), ("lsb", "0"), ("width", "8"), ("kind", "immediate"), ("signed", "true"), ("size", "4")],
      packOpElement]⟩

theorem pack_accepted : Language.ofElement (rootWith packElement) = .ok (languageWith pack) := by rfl

/-- At the end of the code space. -/
def packEngine : Engine FlatImage := .ofLanguage ⟨0xfffe, [0x30, 0x80]⟩ (languageWith pack)

/-- What each of the expressions stands for there. -/
def packed : List (String × UInt64 × Nat) :=
  [("#-2:2", 0xfffe, 2), ("v", 0xffffff80, 4), ("@ram", 1, 8), ("inst_start", 0xfffe, 2), ("inst_next", 0, 2)]

def packOp : MicroOp :=
  ⟨ram.address 0xfffe, .callOther, none, packed.map fun p => Storage.varnode ⟨constantSpace true, p.2.1, p.2.2⟩⟩

theorem pack_records : (packEngine.seenDecode 0xfffe Sink.ops .empty).records = [packOp] := by decide +kernel

end Sample

theorem Engine.constants_canonical_pack :
    let root := Sample.rootWith Sample.packElement
    let engine := Sample.packEngine
    let i : Instruction := ⟨Sample.pack, 0x3080, 0xfffe⟩
    Language.ofElement root = .ok engine.language ∧ (engine.fetch 0xfffe).result = .ok i ∧
      (engine.seenDecode 0xfffe Sink.ops .empty).result = .ok 2 ∧
      ∀ p ∈ Sample.packed, let v := Storage.varnode ⟨constantSpace true, p.2.1, p.2.2⟩
        engine.HandsOver root 0xfffe Sink.ops .empty p.1 v ∧
          i.Denotes engine.language 0xfffe p.1 p.2.1.toNat p.2.2 ∧
          i.HandsOverConstant engine.language p.1 v p.2.1.toNat p.2.2 := by
  intro root engine i
  have found : (engine.fetch 0xfffe).result = .ok i := by decide +kernel
  have canonical := (Engine.constants_canonical engine 0xfffe Sample.pack_accepted Sink.ops .empty found).1
  refine ⟨Sample.pack_accepted, found, by decide +kernel, ?_⟩
  intro p hp v
  have handed : engine.HandsOver root 0xfffe Sink.ops .empty p.1 v := by
    refine ⟨i, Sample.packElement, Sample.packOpElement, Sample.packOp, found, ⟨⟨_, rfl, List.mem_singleton_self _⟩, rfl⟩, ?_, ?_⟩
    · rw [Sample.pack_records]
      exact List.mem_singleton_self _
    · have hread : Sample.packOpElement.operandExpressions = Sample.packed.map (·.1) := by decide +kernel
      rw [hread, Sample.packOp, MicroOp.varnodes, Option.toList_none, List.nil_append, List.zip_map']
      exact List.mem_map_of_mem hp
  have denoted : i.Denotes engine.language 0xfffe p.1 p.2.1.toNat p.2.2 := by
    simp only [Sample.packed, List.mem_cons, List.not_mem_nil, or_false] at hp
    rcases hp with rfl | rfl | rfl | rfl | rfl
    · have hspells : SpellsConstant "#-2:2" (-2) 2 :=
        ⟨['-', '2'], ['2'], 2, by decide, by decide, by decide, by decide, by decide⟩
      exact .constant hspells
    · have hvalue : i.fieldNumber Sample.level true % (capacity (8 * 4) : Nat) = 0xffffff80 := by decide +kernel
      have hdenotes := @Instruction.Denotes.immediate i engine.language 0xfffe Sample.level true 4
        (List.mem_singleton_self Sample.level) Sample.level_isName rfl
      rwa [hvalue] at hdenotes
    · exact .spaceNumber (n := 1) rfl rfl
    · exact .start
    · have hvalue : (((0xfffe : UInt64).toNat : Int) + i.length) % (capacity (8 * 2) : Nat) = 0 := by decide +kernel
      have hdenotes : i.Denotes engine.language 0xfffe "inst_next"
        ((((0xfffe : UInt64).toNat : Int) + i.length) % (capacity (8 * 2) : Nat)) 2 := .next
      rwa [hvalue] at hdenotes
  exact ⟨handed, denoted, canonical _ _ handed _ _ denoted⟩

end Lifter
