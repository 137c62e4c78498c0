/-
  Lifter.Proofs.WrittenConstants — constants written in hexadecimal.

  A constant of `size` bytes can have any value below 2^(8·size), and `#0x…:size` spells
  it. Whether a description is accepted does not depend on inputs that are read
  (`ofElement_mapOps_iff`), and each decoding hands the constant over where it is
  written. But the value is read as an integer, which is below 2^63 in size, before it is
  cut off to the constant's own size. So the upper half of the values of eight bytes is refused
  (`Engine.constants_written`, `cast_refused`). With a minus sign they can be written
  after all, except 2^63 itself, which no expression stands for (`exists_expression_iff`).
-/

import Lifter.Proofs.Constants
import Lifter.Proofs.NumberForms

namespace Lifter

open Specification

/-! ## The expression -/

/-- The expression is `#0x…:…`, with the value in hexadecimal and the size in decimal digits. -/
def WritesConstant (text : String) (value size : Nat) : Prop :=
  ∃ digits sizeDigits, Text.Digits 16 digits value ∧ Text.Digits 10 sizeDigits size ∧
    text.toList = '#' :: '0' :: 'x' :: (digits ++ ':' :: sizeDigits)

section Expressions

variable {text : String} {value size : Nat} {spaces : List Space} {registers : RegisterStore}
  {fields : List OperandField}

theorem number?_size {sizeDigits : List Char} (h : Text.Digits 10 sizeDigits size) (hsize : size ≤ 8) :
    number? sizeDigits = some (UInt64.ofNat size) ∧ (UInt64.ofNat size).toNat = size := by
  have hword : size < UInt64.size := Nat.lt_of_le_of_lt hsize (by decide)
  exact ⟨by rw [number?_decimal h, if_pos hword], UInt64.toNat_ofNat_of_lt' hword⟩

/-- An integer in hexadecimal, with or without a minus sign, is spelled by its digits. -/
theorem WritesConstant.spells (h : WritesConstant text value size) (hlow : value < capacity 63) (hsize : size ≤ 8) :
    SpellsConstant text value size := by
  obtain ⟨digits, sizeDigits, hdigits, hsizeDigits, htext⟩ := h
  obtain ⟨hnumber, hn⟩ := number?_size hsizeDigits hsize
  have hcolon : ':' ∉ digits := hdigits.not_mem (by decide)
  refine ⟨'0' :: 'x' :: digits, sizeDigits, UInt64.ofNat size, htext, by simp [hcolon], ?_, hnumber, hn⟩
  rw [integer?_hexadecimal hdigits, if_pos hlow]

/-- A size of one to eight bytes is all that the expression has to have. -/
theorem SpellsConstant.readOperand_eq {n : Int} (h : SpellsConstant text n size) (hsize : 1 ≤ size ∧ size ≤ 8) :
    readOperand spaces registers fields text = .ok (.constant (UInt64.ofInt n &&& lowMask (8 * size)) size) := by
  obtain ⟨digits, sizeDigits, w, htext, hcolon, hvalue, hnumber, rfl⟩ := h
  simp only [readOperand, htext, readSized, span_append hcolon, hvalue, hnumber, if_pos hsize]
  rfl

/-- A number that fits the size is not cut off. -/
theorem ofInt_and_lowMask_eq {n : Int} (hsize : size ≤ 8) (hn : n % (capacity (8 * size) : Nat) = value) :
    UInt64.ofInt n &&& lowMask (8 * size) = UInt64.ofNat value := by
  have hpos := capacity_pos (8 * size)
  have hword : capacity (8 * size) ≤ UInt64.size := capacity_le_size (by omega)
  have hlt := Int.emod_lt_of_pos n (b := (capacity (8 * size) : Nat)) (by omega)
  have hmasked := toNat_ofInt_and_lowMask (show 8 * size ≤ 64 by omega) n
  rw [← UInt64.toNat_inj, UInt64.toNat_ofNat', Nat.mod_eq_of_lt (show value < UInt64.size by omega)]
  omega

theorem WritesConstant.readOperand_eq (h : WritesConstant text value size) (hlow : value < capacity 63)
    (hsize : 1 ≤ size ∧ size ≤ 8) (hfits : value < capacity (8 * size)) :
    readOperand spaces registers fields text = .ok (.constant (UInt64.ofNat value) size) := by
  have hvalue : (value : Int) % (capacity (8 * size) : Nat) = value := Int.emod_eq_of_lt (by omega) (by omega)
  rw [(h.spells hlow hsize.2).readOperand_eq hsize, ofInt_and_lowMask_eq hsize.2 hvalue]

theorem WritesConstant.readOperand_error (h : WritesConstant text value size) (hhigh : capacity 63 ≤ value) :
    readOperand spaces registers fields text = .error (.badValue text) := by
  obtain ⟨digits, sizeDigits, hdigits, -, htext⟩ := h
  have hcolon : ':' ∉ '0' :: 'x' :: digits := by
    have hnot : ':' ∉ digits := hdigits.not_mem (by decide)
    simp [hnot]
  have hnone : integer? ('0' :: 'x' :: digits) = none := by
    rw [integer?_hexadecimal hdigits, if_neg (by omega)]
  have hbody : ('0' :: 'x' :: (digits ++ ':' :: sizeDigits)) = ('0' :: 'x' :: digits) ++ ':' :: sizeDigits := rfl
  simp only [readOperand, htext, hbody, readSized, span_append hcolon, hnone]
  rfl

/-! ## Constants that have an expression -/

/-- Only an expression behind `#` stands for a constant. -/
theorem readOperand_eq_constant {w : UInt64} (h : readOperand spaces registers fields text = .ok (.constant w size)) :
    ∃ n : Int, -(capacity 63 : Int) < n ∧ n < capacity 63 ∧ w = UInt64.ofInt n &&& lowMask (8 * size) := by
  rcases readOperand_cases h with ⟨body, n, _, hsized, heq⟩ | ⟨_, _, _, -, heq⟩ | ⟨_, -, heq⟩ | hnamed
  · cases heq
    obtain ⟨hlow, hhigh⟩ := readSized_bounds hsized
    exact ⟨n, hlow, hhigh, rfl⟩
  · cases heq
  · cases heq
  · rcases readNamed_cases hnamed with heq | heq | ⟨_, -, heq⟩ | ⟨_, -, heq⟩
    all_goals cases heq

/-- Every integer below 2^63 in size is spelled by some expression. -/
theorem exists_spelling {n : Int} (hlow : -(capacity 63 : Int) < n) (hhigh : n < capacity 63) (hsize : size ≤ 8) :
    ∃ text, SpellsConstant text n size := by
  have hdigits : Text.Digits 16 (Nat.toDigits 16 n.natAbs) n.natAbs := Text.digits_toDigits (by decide) (by decide) _
  have hsizeDigits : Text.Digits 10 (Nat.toDigits 10 size) size := Text.digits_toDigits (by decide) (by decide) _
  obtain ⟨hnumber, hw⟩ := number?_size hsizeDigits hsize
  have hcolon : ':' ∉ Nat.toDigits 16 n.natAbs := hdigits.not_mem (by decide)
  by_cases hneg : n < 0
  · refine ⟨String.ofList ('#' :: ('-' :: '0' :: 'x' :: Nat.toDigits 16 n.natAbs ++ ':' :: Nat.toDigits 10 size)),
      _, _, _, String.toList_ofList, by simp [hcolon], ?_, hnumber, hw⟩
    rw [integer?_negative hdigits, if_pos (by omega)]
    simp only [Option.some.injEq]
    omega
  · refine ⟨String.ofList ('#' :: ('0' :: 'x' :: Nat.toDigits 16 n.natAbs ++ ':' :: Nat.toDigits 10 size)),
      _, _, _, String.toList_ofList, by simp [hcolon], ?_, hnumber, hw⟩
    rw [integer?_hexadecimal hdigits, if_pos (by omega)]
    simp only [Option.some.injEq]
    omega

/-- Only eight bytes have values from 2^63 on. -/
theorem size_eq_of_high (hsize : size ≤ 8) (hfits : value < capacity (8 * size)) (hhigh : capacity 63 ≤ value) :
    size = 8 := by
  by_cases hshort : size ≤ 7
  · have hle : capacity (8 * size) ≤ capacity 56 := capacity_mono (by omega)
    have hless : capacity 56 < capacity 63 := by decide
    omega
  · omega

/-- Every constant but 2^63 has an expression; those above it have one with a minus sign. -/
theorem exists_expression_iff (hsize : 1 ≤ size ∧ size ≤ 8) (hfits : value < capacity (8 * size)) :
    (∃ text, readOperand spaces registers fields text = .ok (.constant (UInt64.ofNat value) size)) ↔
      value ≠ capacity 63 := by
  have hhalf : capacity 63 = 9223372036854775808 := rfl
  have hall : capacity (8 * 8) = 18446744073709551616 := rfl
  constructor
  · intro h heq
    obtain ⟨text, htext⟩ := h
    obtain ⟨n, hlow, hhigh, hw⟩ := readOperand_eq_constant htext
    have hmasked := toNat_ofInt_and_lowMask (show 8 * size ≤ 64 by omega) n
    rw [← hw, size_eq_of_high hsize.2 hfits (Nat.le_of_eq heq.symm), heq, hhalf, hall] at hmasked
    simp at hmasked
    omega
  · intro hne
    have hspelled : ∃ n : Int, -(capacity 63 : Int) < n ∧ n < capacity 63 ∧
        n % (capacity (8 * size) : Nat) = value := by
      by_cases hlow : value < capacity 63
      · exact ⟨value, by omega, by omega, Int.emod_eq_of_lt (by omega) (by omega)⟩
      · have hbytes := size_eq_of_high hsize.2 hfits (by omega)
        rw [hbytes, hall] at hfits ⊢
        exact ⟨value - 18446744073709551616, by omega, by omega, by omega⟩
    obtain ⟨n, hlow, hhigh, hn⟩ := hspelled
    obtain ⟨text, htext⟩ := exists_spelling hlow hhigh hsize.2
    exact ⟨text, by rw [htext.readOperand_eq hsize, ofInt_and_lowMask_eq hsize.2 hn]⟩

end Expressions

/-! ## Descriptions -/

namespace Element

/-- The element with `f` applied to its children of this name. -/
def mapNamed (name : String) (f : Element → Element) (e : Element) : Element :=
  { e with children := e.children.map fun c => if c.name == name then f c else c }

/-- The description with `f` applied to the operations of its instructions. -/
def mapOps (f : Element → Element) (root : Element) : Element :=
  root.mapNamed "instructions" (mapNamed "instruction" (mapNamed "op" f))

/-- The expressions of the inputs in an `<op>` element. -/
def inputExpressions (el : Element) : List String := Text.words ((el.attribute? "in").getD "")

/-- Two `<op>` elements that are alike but for inputs written `text`. -/
structure AlikeBut (text : String) (el el' : Element) : Prop where
  name : el'.name = el.name
  code : el'.attribute? "code" = el.attribute? "code"
  output : el'.attribute? "out" = el.attribute? "out"
  inputs : el'.inputExpressions.filter (· != text) = el.inputExpressions.filter (· != text)

/-- Some operation of the description has an input written `text`. -/
def Writes (root : Element) (text : String) : Prop :=
  ∃ instructions, root.child? "instructions" = some instructions ∧
    ∃ el ∈ instructions.childrenNamed "instruction", ∃ opEl ∈ el.childrenNamed "op", text ∈ opEl.inputExpressions

variable {name other : String} {f : Element → Element}

theorem childrenNamed_map {g : Element → Element} (hg : ∀ e, (g e).name = e.name) (e : Element) :
    Element.childrenNamed { e with children := e.children.map g } other = (e.childrenNamed other).map g := by
  have hsame : (fun c : Element => c.name == other) ∘ g = fun c => c.name == other := by
    funext c
    simp [hg]
  unfold childrenNamed
  rw [List.filter_map, hsame]

theorem name_mapped (hf : ∀ e, (f e).name = e.name) (e : Element) :
    (if e.name == name then f e else e).name = e.name := by
  by_cases h : e.name = name
  · simp [h, hf]
  · simp [h]

theorem childrenNamed_mapNamed (hf : ∀ e, (f e).name = e.name) (e : Element) :
    (e.mapNamed name f).childrenNamed name = (e.childrenNamed name).map f := by
  unfold mapNamed
  rw [childrenNamed_map (name_mapped hf)]
  refine List.map_congr_left fun c hc => ?_
  have hname := (List.mem_filter.mp hc).2
  simp only [hname, if_true]

theorem childrenNamed_mapNamed_of_ne (hf : ∀ e, (f e).name = e.name) (h : other ≠ name) (e : Element) :
    (e.mapNamed name f).childrenNamed other = e.childrenNamed other := by
  unfold mapNamed
  rw [childrenNamed_map (name_mapped hf)]
  have hkept : ∀ c ∈ e.childrenNamed other, (if c.name == name then f c else c) = c := by
    intro c hc
    have hname : c.name = other := by simpa using (List.mem_filter.mp hc).2
    simp [hname, h]
  rw [List.map_congr_left hkept, List.map_id']

theorem child?_eq_head? (e : Element) (name : String) : e.child? name = (e.childrenNamed name).head? :=
  List.head?_filter.symm

theorem child?_mapNamed_of_ne (hf : ∀ e, (f e).name = e.name) (h : other ≠ name) (e : Element) :
    (e.mapNamed name f).child? other = e.child? other := by
  rw [child?_eq_head?, child?_eq_head?, childrenNamed_mapNamed_of_ne hf h]

theorem child?_mapNamed (hf : ∀ e, (f e).name = e.name) (e : Element) :
    (e.mapNamed name f).child? name = (e.child? name).map f := by
  rw [child?_eq_head?, child?_eq_head?, childrenNamed_mapNamed hf, List.head?_map]

end Element

section Acceptance

variable {d : Declarations} {mnemonic : String} {fields : List OperandField} {el el' : Element} {text : String}

/-- An operation is read if its name is known and its output and each of its inputs are read. -/
theorem readOp_succeeds_iff :
    (∃ t, readOp d mnemonic fields el = .ok t) ↔
      (∃ code opcode, el.attribute? "code" = some code ∧ Opcode.ofName? code = some opcode) ∧
        (∃ output, readOutput d mnemonic fields el = .ok output) ∧
        ∀ text ∈ el.inputExpressions, ∃ o, readOperand d.spaces d.registerStore fields text = .ok o := by
  constructor
  · intro h
    obtain ⟨t, ht⟩ := h
    simp only [readOp, bind_eq_ok, attr_eq_ok] at ht
    obtain ⟨code, hcode, ht⟩ := ht
    split at ht
    · simp [invalid] at ht
    · rename_i opcode hopcode
      simp only [bind_eq_ok, within, mapError_eq_ok] at ht
      obtain ⟨output, houtput, inputs, hinputs, -⟩ := ht
      exact ⟨⟨code, opcode, hcode, hopcode⟩, ⟨output, houtput⟩, exists_mapM_iff.mp ⟨inputs, hinputs⟩⟩
  · intro h
    obtain ⟨⟨code, opcode, hcode, hopcode⟩, ⟨output, houtput⟩, hinputs⟩ := h
    obtain ⟨inputs, hinputs⟩ := exists_mapM_iff.mpr hinputs
    refine ⟨⟨opcode, output, inputs⟩, ?_⟩
    simp only [readOp, bind_eq_ok, attr_eq_ok]
    refine ⟨code, hcode, ?_⟩
    simp only [hopcode, bind_eq_ok, within, mapError_eq_ok, pure_eq_ok]
    exact ⟨output, houtput, inputs, hinputs, rfl⟩

/-- Where an expression is read, it makes no difference as an input. -/
theorem Element.AlikeBut.readOp_succeeds (h : el.AlikeBut text el')
    (hread : ∃ o, readOperand d.spaces d.registerStore fields text = .ok o) :
    (∃ t, readOp d mnemonic fields el' = .ok t) ↔ ∃ t, readOp d mnemonic fields el = .ok t := by
  have houtput : readOutput d mnemonic fields el' = readOutput d mnemonic fields el := by
    unfold readOutput
    rw [h.output]
  have hskip : ∀ expressions : List String,
      (∀ other ∈ expressions, ∃ o, readOperand d.spaces d.registerStore fields other = .ok o) ↔
        ∀ other ∈ expressions.filter (· != text), ∃ o, readOperand d.spaces d.registerStore fields other = .ok o := by
    intro expressions
    constructor
    · intro hall other hmem
      exact hall other (List.mem_of_mem_filter hmem)
    · intro hall other hmem
      by_cases heq : other = text
      · rw [heq]
        exact hread
      · exact hall other (List.mem_filter.mpr ⟨hmem, by simpa using heq⟩)
  rw [readOp_succeeds_iff, readOp_succeeds_iff, h.code, houtput, hskip el'.inputExpressions, h.inputs, ← hskip]

variable {f : Element → Element}

theorem readEncoding_mapNamed (hf : ∀ el, (f el).name = el.name)
    (hops : ∀ mnemonic fields el,
      (∃ t, readOp d mnemonic fields (f el) = .ok t) ↔ ∃ t, readOp d mnemonic fields el = .ok t) (el : Element) :
    (∃ e, readEncoding d (el.mapNamed "op" f) = .ok e) ↔ ∃ e, readEncoding d el = .ok e := by
  have hattr : ∀ name, attr (el.mapNamed "op" f) name = attr el name := fun _ => rfl
  have hnumber : ∀ name, number (el.mapNamed "op" f) name = number el name := fun _ => rfl
  have hrange : ∀ name low high, inRange (el.mapNamed "op" f) name low high = inRange el name low high :=
    fun _ _ _ => rfl
  have hoperands : (el.mapNamed "op" f).attribute? "operands" = el.attribute? "operands" := rfl
  simp only [readEncoding, hattr, hnumber, hrange, hoperands, Element.childrenNamed_mapNamed hf,
    Element.childrenNamed_mapNamed_of_ne hf, ne_eq, String.reduceEq, not_false_eq_true]
  refine bind_succeeds_congr fun mnemonic => ?_
  refine bind_succeeds_congr fun length => ?_
  refine bind_succeeds_congr fun mask => ?_
  refine bind_succeeds_congr fun bits => ?_
  refine unless_succeeds_congr ?_
  refine unless_succeeds_congr ?_
  refine bind_succeeds_congr fun constraints => ?_
  refine bind_succeeds_congr fun fields => ?_
  refine bind_succeeds_congr fun operands => ?_
  simp only [bind_pure_succeeds, exists_mapM_iff, List.forall_mem_map, hops]

/-- Descriptions that are alike but for inputs that are read are accepted alike. -/
theorem ofElement_mapOps_iff (hread : ∀ (spaces : List Space) (registers : RegisterStore) (fields : List OperandField),
      ∃ o, readOperand spaces registers fields text = .ok o)
    (hf : ∀ el, Element.AlikeBut text el (f el)) (root : Element) :
    (∃ l, Language.ofElement (root.mapOps f) = .ok l) ↔ ∃ l, Language.ofElement root = .ok l := by
  have hnames : ∀ (name : String) (g : Element → Element) (e : Element), (e.mapNamed name g).name = e.name :=
    fun _ _ _ => rfl
  have hprocessor : readProcessor (root.mapOps f) = readProcessor root := rfl
  have hencodings : ∀ d (instructions : Element),
      (∃ encodings, ((instructions.childrenNamed "instruction").map (Element.mapNamed "op" f)).mapM (readEncoding d) =
        .ok encodings) ↔
        ∃ encodings, (instructions.childrenNamed "instruction").mapM (readEncoding d) = .ok encodings := by
    intro d instructions
    have hops : ∀ mnemonic fields el, (∃ t, readOp d mnemonic fields (f el) = .ok t) ↔
        ∃ t, readOp d mnemonic fields el = .ok t :=
      fun mnemonic fields el => (hf el).readOp_succeeds (hread d.spaces d.registerStore fields)
    simp only [exists_mapM_iff, List.forall_mem_map, readEncoding_mapNamed (fun el => (hf el).name) hops]
  simp only [Language.ofElement, hprocessor, child]
  simp only [Element.mapOps, Element.childrenNamed_mapNamed_of_ne (hnames _ _),
    Element.child?_mapNamed_of_ne (hnames _ _), Element.child?_mapNamed (hnames _ _), ne_eq, String.reduceEq,
    not_false_eq_true]
  -- What is read before the instructions is the same in both descriptions.
  refine bind_succeeds_congr fun processor => ?_
  refine bind_succeeds_congr fun spacesElement => ?_
  refine bind_succeeds_congr fun declared => ?_
  refine bind_succeeds_congr fun codeSpace => ?_
  refine bind_succeeds_congr fun registers => ?_
  refine bind_succeeds_congr fun tables => ?_
  refine bind_succeeds_congr fun contextFields => ?_
  cases root.child? "instructions" with
  | none => exact Iff.rfl
  | some instructions =>
    refine bind_pure_succeeds.trans (Iff.trans ?_ bind_pure_succeeds.symm)
    rw [Element.childrenNamed_mapNamed (hnames _ _)]
    exact hencodings _ instructions

/-- No accepted description has an input that cannot be read. -/
theorem not_writes {root : Element} {l : Language} (accepted : Language.ofElement root = .ok l) {e : String}
    (h : ∀ fields, readOperand l.spaces l.registerStore fields text = .error (.badValue e)) : ¬ root.Writes text := by
  intro hwrites
  obtain ⟨instructions, hinstructions, el, hel, opEl, hopEl, htext⟩ := hwrites
  obtain ⟨-, -, instructions', encodings, -, -, -, -, -, -, -, -, hinstructions', hencodings, -⟩ :=
    ofElement_parts accepted
  rw [hinstructions] at hinstructions'
  cases hinstructions'
  obtain ⟨encoding, hencoding⟩ := exists_mapM_iff.mp ⟨_, hencodings⟩ el hel
  have hop := exists_mapM_iff.mp ⟨_, (readEncoding_parts hencoding).2.2.2⟩ opEl hopEl
  obtain ⟨o, ho⟩ := (readOp_succeeds_iff.mp hop).2.2 text htext
  have hrefused := h encoding.fields
  have hread : readOperand l.spaces l.registerStore encoding.fields text = .ok o := ho
  rw [hread] at hrefused
  cases hrefused

end Acceptance

/-! ## Decoding -/

/-- In every instruction the constant stands for its value. -/
theorem WritesConstant.handsOver {text : String} {value size : Nat} (h : WritesConstant text value size)
    (hlow : value < capacity 63) (hsize : 1 ≤ size ∧ size ≤ 8) (hfits : value < capacity (8 * size)) {l : Language}
    (hconstant : l.constantSpace = constantSpace l.bigEndian) {i : Instruction} {v : Varnode}
    (hv : i.StandsFor l text v) : i.HandsOverConstant l text v value size := by
  have hle : capacity 63 ≤ UInt64.size := capacity_le_size (by decide)
  have hword : (UInt64.ofNat value).toNat = value := by
    rw [UInt64.toNat_ofNat']
    exact Nat.mod_eq_of_lt (show value < UInt64.size by omega)
  exact Instruction.handsOverConstant hconstant (h.readOperand_eq hlow hsize hfits) rfl hv (congrArg _ hword) hsize
    (hword.symm ▸ hfits)

/-- Up to 2^63, constants make no difference to whether a description is accepted, and wherever one is written it is
    handed over. From 2^63 on no accepted description has one. Only 2^63 itself cannot be written in another way. -/
theorem Engine.constants_written {σ τ : Type} [ByteSource σ] {root : Element} (engine : Engine σ) (offset : UInt64)
    (accepted : Language.ofElement root = .ok engine.language) (sink : Sink MicroOp τ) (t : τ) {text : String}
    {value size : Nat} (bytes : 1 ≤ size ∧ size ≤ 8) (fits : value < capacity (8 * size))
    (written : WritesConstant text value size) :
    (value < capacity 63 →
      (∀ (description : Element) (f : Element → Element), (∀ el, Element.AlikeBut text el (f el)) →
        ((∃ l, Language.ofElement (description.mapOps f) = .ok l) ↔ ∃ l, Language.ofElement description = .ok l)) ∧
      (∀ i v, (engine.fetch offset).result = .ok i → engine.HandsOver root offset sink t text v →
        i.HandsOverConstant engine.language text v value size) ∧
      ∀ n, (engine.seenDecode offset sink t).result = .ok n →
        ∃ i el, (engine.fetch offset).result = .ok i ∧ DeclaredBy root engine.language i.encoding el ∧
          List.Forall₂ (fun opEl op =>
            List.Forall₂ (fun expression v => expression = text → i.HandsOverConstant engine.language text v value size)
              opEl.operandExpressions op.varnodes)
            (el.childrenNamed "op") (engine.seenDecode offset sink t).records) ∧
      (capacity 63 ≤ value → ∀ description l, Language.ofElement description = .ok l → ¬ description.Writes text) ∧
      ∀ spaces registers fields,
        (∃ other, readOperand spaces registers fields other = .ok (.constant (UInt64.ofNat value) size)) ↔
          value ≠ capacity 63 := by
  refine ⟨fun hlow => ⟨?_, ?_, ?_⟩, ?_, ?_⟩
  · intro description f hf
    exact ofElement_mapOps_iff (fun _ _ _ => ⟨_, written.readOperand_eq hlow bytes fits⟩) hf description
  · intro i v found handed
    exact written.handsOver hlow bytes fits (ofElement_constantSpace accepted) (handed.standsFor_of_fetch found)
  · intro n hn
    obtain ⟨i, hfound, hrecords⟩ := seenRun_of_ok hn
    obtain ⟨el, hel⟩ := exists_declaredBy accepted (engine.fetch_declared hfound)
    refine ⟨i, el, hfound, hel, (hel.standsFor hrecords).imp ?_⟩
    intro opEl op hoperands
    refine hoperands.imp ?_
    intro expression v hv heq
    exact written.handsOver hlow bytes fits (ofElement_constantSpace accepted) (heq ▸ hv)
  · intro hhigh description l haccepted
    exact not_writes haccepted fun _ => written.readOperand_error hhigh
  · intro spaces registers fields
    exact exists_expression_iff bytes fits

namespace Sample

def castOpElement (input : String) : Element := leaf "op" [("code", "CALLOTHER"), ("in", input)]

/-- Has one input and does nothing with it. -/
def castElement (input : String) : Element :=
  ⟨"instruction", [("mnemonic", "cast"), ("length", "1"), ("mask", "0xff"), ("match", "0x10")], "",
    [castOpElement input]⟩

def cast : Encoding where
  mnemonic := "cast"
  length := 1
  mask := 0xff
  bits := 0x10
  constraints := []
  fields := []
  operands := []
  ops := [⟨.callOther, none, [.constant 0x7fffffffffffffff 8]⟩]

def castEngine : Engine FlatImage := .ofLanguage ⟨0, [0x10]⟩ (languageWith cast)

/-- The last constant of eight bytes that is accepted, with a zero in front and a digit in the other case. -/
def castText : String := "#0x07fFfffffffffffff:8"

def castVarnode : Varnode := Storage.varnode ⟨constantSpace true, 0x7fffffffffffffff, 8⟩

theorem cast_accepted : Language.ofElement (rootWith (castElement castText)) = .ok castEngine.language := by rfl

def castOp : MicroOp := ⟨ram.address 0, .callOther, none, [castVarnode]⟩

theorem cast_records : (castEngine.seenDecode 0 Sink.ops .empty).records = [castOp] := by decide +kernel

theorem cast_expressions : (castOpElement castText).operandExpressions = [castText] := by decide +kernel

end Sample

theorem Engine.constants_written_cast :
    let root := Sample.rootWith (Sample.castElement Sample.castText)
    let i : Instruction := ⟨Sample.cast, 0x10, 0⟩
    Language.ofElement root = .ok Sample.castEngine.language ∧ WritesConstant Sample.castText 0x7fffffffffffffff 8 ∧
      (Sample.castEngine.seenDecode 0 Sink.ops .empty).result = .ok 1 ∧
      (Sample.castEngine.fetch 0).result = .ok i ∧
      Sample.castEngine.HandsOver root 0 Sink.ops .empty Sample.castText Sample.castVarnode ∧
      i.HandsOverConstant Sample.castEngine.language Sample.castText Sample.castVarnode 0x7fffffffffffffff 8 := by
  intro root i
  have written : WritesConstant Sample.castText 0x7fffffffffffffff 8 :=
    ⟨['0', '7', 'f', 'F'] ++ List.replicate 13 'f', ['8'], by decide, by decide, by decide⟩
  have found : (Sample.castEngine.fetch 0).result = .ok i := by rfl
  have handed : Sample.castEngine.HandsOver root 0 Sink.ops .empty Sample.castText Sample.castVarnode := by
    refine ⟨i, _, Sample.castOpElement Sample.castText, Sample.castOp, found,
      ⟨⟨_, rfl, List.mem_singleton_self _⟩, rfl⟩, ?_, ?_⟩
    · rw [Sample.cast_records]
      exact List.mem_singleton_self _
    · rw [Sample.cast_expressions]
      exact List.mem_singleton_self _
  have constants := Engine.constants_written Sample.castEngine 0 Sample.cast_accepted Sink.ops .empty
    (by decide) (by decide) written
  exact ⟨Sample.cast_accepted, written, by rfl, found, handed, (constants.1 (by decide)).2.1 i _ found handed⟩

/-- The next one fits eight bytes as well, but it is refused. -/
theorem cast_refused :
    let text := "#0x8000000000000000:8"
    0x8000000000000000 < capacity (8 * 8) ∧ WritesConstant text 0x8000000000000000 8 ∧
      Language.ofElement (Sample.rootWith (Sample.castElement text)) =
        .error (.badInstruction "cast" (.badValue text)) :=
  ⟨by decide, ⟨'8' :: List.replicate 15 '0', ['8'], by decide, by decide, by decide⟩, by rfl⟩

end Lifter
