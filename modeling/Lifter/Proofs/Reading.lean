/-
  Lifter.Proofs.Reading — what a description says if it is accepted.

  For every reader there is one lemma with what follows from its success; nothing else
  unfolds it. Lists of declarations stay well-formed with each declaration that is
  read. `Describes` says which encoding an `<instruction>` element stands for,
  attribute by attribute, and an encoding that is read is the described one
  (`readEncoding_ok`). Together: an accepted language is well-formed
  (`ofElement_wellFormed`), its encodings are the described ones, put in order of
  length (`ofElement_encodings`), its registers are the declared ones
  (`ofElement_registersInOrder`) and are found by their names (`accepted_wellFormed`),
  and its tables are the declared ones (`ofElement_tables`).
-/

import Lifter.Proofs.Results
import Lifter.Proofs.WellFormed

namespace Lifter.Specification

/-! ## Declarations -/

theorem nodup_append_singleton {α : Type} {as : List α} {nameOf : α → String} {a : α}
    (h : (as.map nameOf).Nodup) (ha : as.any (nameOf · == nameOf a) = false) :
    ((as ++ [a]).map nameOf).Nodup := by
  simp only [List.any_eq_false, beq_iff_eq] at ha
  rw [List.map_append, List.nodup_append]
  refine ⟨h, by simp, fun x hx y hy => ?_⟩
  obtain ⟨b, hb, rfl⟩ := List.mem_map.mp hx
  simp only [List.map_cons, List.map_nil, List.mem_singleton] at hy
  subst hy
  exact ha b hb

/-- A property of every declaration is kept by one more that has it. -/
theorem forall_append_singleton {α : Type} {as : List α} {a : α} {P : α → Prop} (h : ∀ b ∈ as, P b) (ha : P a) :
    ∀ b ∈ as ++ [a], P b := by
  intro b hb
  rcases List.mem_append.mp hb with hb | hb
  · exact h b hb
  · rw [List.mem_singleton.mp hb]; exact ha

/-! ## The processor and its spaces -/

theorem readProcessor_ok {root : Element} {p : Processor} (h : readProcessor root = .ok p) :
    p.alignment ∈ [1, 2, 4, 8] := by
  simp only [readProcessor, bind_eq_ok] at h
  obtain ⟨name, -, bigEndian, -, n, -, h⟩ := h
  split at h
  · rename_i hn
    rw [← pure_eq_ok.mp h]; exact hn
  · simp [invalid] at h

theorem readKind_ok {e : Element} {k : SpaceKind} (h : readKind e = .ok k) : k ≠ .constant := by
  simp only [readKind] at h
  split at h
  · simp [invalid] at h
  · simp [invalid] at h
  · rename_i k' hk _
    cases h; exact hk

theorem readWordSize_ok {e : Element} {n : Nat} (h : readWordSize e = .ok n) : 1 ≤ n := by
  unfold readWordSize at h
  split at h
  · cases h; exact Nat.le_refl 1
  · obtain ⟨m, -, h⟩ := exceptBind_eq_ok.mp h
    split at h
    · simp [invalid] at h
    · cases h; omega

theorem readSpace_ok {bigEndian : Bool} {spaces : List Space} {e : Element} {s : Space}
    (h : readSpace bigEndian spaces e = .ok s) :
    s.id.index = spaces.length ∧ spaces.any (·.name == s.name) = false ∧ s.kind ≠ .constant ∧ s.Regular := by
  simp only [readSpace, bind_eq_ok, unless_eq_ok, boundedNumber_eq_ok, pure_eq_ok] at h
  obtain ⟨name, -, hname, kind, hkind, size, ⟨n, -, -, -, hlow, hhigh⟩, wordSize, hword, big, -, rfl⟩ := h
  exact ⟨rfl, by simpa using hname, readKind_ok hkind, hlow, hhigh, readWordSize_ok hword⟩

/-- One more space, numbered next and of a new name. -/
theorem spacesWellFormed_snoc {spaces : List Space} {s : Space} (h : SpacesWellFormed spaces) (hpos : spaces ≠ [])
    (hid : s.id.index = spaces.length) (hname : spaces.any (·.name == s.name) = false)
    (hkind : s.kind ≠ .constant) (hregular : s.Regular) : SpacesWellFormed (spaces ++ [s]) := by
  refine ⟨?_, nodup_append_singleton h.distinct hname, forall_append_singleton h.regular hregular,
    forall_append_singleton h.constant ?_⟩
  · intro i t ht
    rcases getElem?_append_singleton.mp ht with hold | ⟨rfl, rfl⟩
    · exact h.numbered i t hold
    · exact hid
  · have hlen : 0 < spaces.length := List.length_pos_of_ne_nil hpos
    simp only [hkind, false_iff]
    omega

theorem constantSpace_wellFormed (bigEndian : Bool) : SpacesWellFormed [constantSpace bigEndian] := by
  refine ⟨?_, by simp, ?_, ?_⟩
  · intro i s h
    obtain ⟨hi, rfl⟩ := List.getElem?_eq_some_iff.mp h
    simp only [List.length_singleton] at hi
    simp only [List.getElem_singleton, constantSpace]
    omega
  · intro s hs
    rw [List.mem_singleton.mp hs]
    exact ⟨Nat.le_add_left 1 7, Nat.le_refl 8, Nat.le_refl 1⟩
  · intro s hs
    rw [List.mem_singleton.mp hs]
    simp [constantSpace]

/-- The declared spaces are well-formed, and the first one is that of the constants. -/
theorem collect_spaces {bigEndian : Bool} {es : List Element} {spaces : List Space}
    (h : collect (readSpace bigEndian) [constantSpace bigEndian] es = .ok spaces) :
    SpacesWellFormed spaces ∧ spaces[0]? = some (constantSpace bigEndian) := by
  refine collect_keeps (P := fun ss => SpacesWellFormed ss ∧ ss[0]? = some (constantSpace bigEndian)) ?_
    ⟨constantSpace_wellFormed bigEndian, rfl⟩ h
  rintro done e s ⟨hdone, hfirst⟩ hs
  obtain ⟨hid, hname, hkind, hregular⟩ := readSpace_ok hs
  have hpos : done ≠ [] := by rintro rfl; cases hfirst
  refine ⟨spacesWellFormed_snoc hdone hpos hid hname hkind hregular, ?_⟩
  rwa [List.getElem?_append_left (List.length_pos_of_ne_nil hpos)]

theorem readCodeSpace_ok {e : Element} {spaces : List Space} {s : Space} (h : readCodeSpace e spaces = .ok s) :
    s ∈ spaces ∧ s.kind = .processor := by
  simp only [readCodeSpace, bind_eq_ok] at h
  obtain ⟨name, -, h⟩ := h
  split at h
  · cases h
  · rename_i t ht
    split at h
    · cases h; exact ⟨List.mem_of_find?_eq_some ht, ‹_›⟩
    · simp [invalid] at h

theorem withUnique_ok {bigEndian : Bool} {spaces all : List Space} {s : Space} (h : SpacesWellFormed spaces)
    (hpos : spaces ≠ []) (he : withUnique bigEndian spaces = (all, s)) :
    SpacesWellFormed all ∧ spaces <+: all ∧ s ∈ all ∧ s.name = uniqueSpaceName := by
  unfold withUnique at he
  split at he
  · rename_i t ht
    cases he
    obtain ⟨hmem, hname⟩ := find?_name ht
    exact ⟨h, List.prefix_rfl, hmem, hname⟩
  · rename_i hnone
    cases he
    refine ⟨spacesWellFormed_snoc h hpos rfl ?_ (by simp) ⟨Nat.le_add_left 1 3, Nat.le_add_right 4 4, Nat.le_refl 1⟩,
      List.prefix_append _ _, by simp, rfl⟩
    rw [List.find?_eq_none] at hnone
    simpa using hnone

/-! ## Registers, tables and context fields -/

theorem readRegister_ok {space : Space} {store : RegisterStore} {e : Element} {r : Register}
    (h : readRegister space store e = .ok r) :
    r.storage.space = space ∧ store.position? r.name = none ∧ 1 ≤ r.storage.size ∧ r.storage.size ≤ 64 ∧
      r.storage.offset.toNat + (r.storage.size - 1) ≤ space.highest.toNat := by
  simp only [readRegister, bind_eq_ok, invalid, unless_eq_ok, boundedNumber_eq_ok, pure_eq_ok] at h
  obtain ⟨name, -, offset, -, size, ⟨n, -, -, -, hlow, hhigh⟩, hlast, hname, rfl⟩ := h
  exact ⟨rfl, by simpa using hname, hlow, hhigh, by simpa using hlast⟩

theorem registersWellFormed_empty (spaces : List Space) : RegistersWellFormed spaces .empty :=
  ⟨by simp [RegisterStore.empty], by simp [RegisterStore.empty], RegisterStore.exact_empty⟩

/-- One more register, of a new name. -/
theorem registersWellFormed_add {spaces : List Space} {s : RegisterStore} {r : Register}
    (h : RegistersWellFormed spaces s) (hname : s.position? r.name = none) (hr : r.WellFormed spaces) :
    RegistersWellFormed spaces (s.add r) := by
  refine ⟨nodup_append_singleton h.distinct ?_, forall_append_singleton h.each hr, h.index.add hname⟩
  simpa using h.index.position?_eq_none.mp hname

theorem readRegisters_ok {spaces : List Space} {before after : RegisterStore} {e : Element}
    (hw : RegistersWellFormed spaces before) (h : readRegisters spaces before e = .ok after) :
    RegistersWellFormed spaces after := by
  simp only [readRegisters, bind_eq_ok] at h
  obtain ⟨name, -, h⟩ := h
  split at h
  · cases h
  · rename_i space hspace
    refine foldlM_keeps (P := RegistersWellFormed spaces) ?_ hw h
    intro done e next hdone hnext
    obtain ⟨r, hr, rfl⟩ := map_eq_ok.mp hnext
    obtain ⟨rfl, hname, hpos, hle, hlast⟩ := readRegister_ok hr
    exact registersWellFormed_add hdone hname ⟨List.mem_of_find?_eq_some hspace, hpos, hle, hlast⟩

/-- What a `<register>` element says of its register. -/
structure DescribesRegister (el : Element) (r : Register) : Prop where
  name : el.attribute? "name" = some r.name
  offset : number el "offset" = .ok r.storage.offset
  size : number el "size" = .ok (UInt64.ofNat r.storage.size)

theorem readRegister_describes {space : Space} {store : RegisterStore} {e : Element} {r : Register}
    (h : readRegister space store e = .ok r) : DescribesRegister e r := by
  simp only [readRegister, bind_eq_ok, attr_eq_ok, invalid, unless_eq_ok, boundedNumber_eq_ok, pure_eq_ok] at h
  obtain ⟨name, hname, offset, hoffset, size, ⟨n, hn, rfl, -⟩, -, -, rfl⟩ := h
  exact ⟨hname, hoffset, hn⟩

/-- The register is declared in one of the blocks, which names its space. -/
def DeclaresRegister (blocks : List Element) (r : Register) : Prop :=
  ∃ block ∈ blocks, block.attribute? "space" = some r.storage.space.name ∧
    ∃ el ∈ block.childrenNamed "register", DescribesRegister el r

/-- A `<register>` element and the block that it stands in. -/
structure RegisterDeclaration where
  block : Element
  element : Element

namespace RegisterDeclaration

def name? (d : RegisterDeclaration) : Option String := d.element.attribute? "name"

/-- The declaration is that of the register, which lies in the space that the block names. -/
structure Declares (spaces : List Space) (d : RegisterDeclaration) (r : Register) : Prop where
  space_mem : r.storage.space ∈ spaces
  space_name : d.block.attribute? "space" = some r.storage.space.name
  register : DescribesRegister d.element r

end RegisterDeclaration

/-- The declarations of all blocks, in order. -/
def registerDeclarations (blocks : List Element) : List RegisterDeclaration :=
  blocks.flatMap fun block => (block.childrenNamed "register").map (⟨block, ·⟩)

/-- The registers are what is declared, each by its own element. -/
def DeclaredInOrder (spaces : List Space) (ds : List RegisterDeclaration) (s : RegisterStore) : Prop :=
  List.Forall₂ (RegisterDeclaration.Declares spaces) ds s.registers

theorem DeclaredInOrder.add {spaces : List Space} {ds : List RegisterDeclaration} {s : RegisterStore}
    {d : RegisterDeclaration} {r : Register} (h : DeclaredInOrder spaces ds s) (hd : d.Declares spaces r) :
    DeclaredInOrder spaces (ds ++ [d]) (s.add r) :=
  List.rel_append h (.cons hd .nil)

/-- A block adds the registers that its elements declare. -/
theorem readRegisters_inOrder {spaces : List Space} {before after : RegisterStore} {block : Element}
    {ds : List RegisterDeclaration} (hbefore : DeclaredInOrder spaces ds before)
    (h : readRegisters spaces before block = .ok after) :
    DeclaredInOrder spaces (ds ++ registerDeclarations [block]) after := by
  simp only [readRegisters, bind_eq_ok, attr_eq_ok] at h
  obtain ⟨name, hname, h⟩ := h
  split at h
  · cases h
  · rename_i space hspace
    obtain ⟨hmem, hsame⟩ := find?_name hspace
    -- the declarations of earlier blocks stay in front of those of this one that are passed
    have hall := foldlM_passes (P := fun passed s => DeclaredInOrder spaces (ds ++ passed.map (⟨block, ·⟩)) s) ?_
      (by simpa using hbefore) h
    · simpa [registerDeclarations] using hall
    · intro passed s el next hpassed hnext
      obtain ⟨new, hnew, rfl⟩ := map_eq_ok.mp hnext
      obtain ⟨rfl, -⟩ := readRegister_ok hnew
      have hadded := hpassed.add (d := ⟨block, el⟩) ⟨hmem, by rw [hname, hsame], readRegister_describes hnew⟩
      rwa [List.map_append, List.map_singleton, ← List.append_assoc]

theorem foldlM_registers_inOrder {spaces : List Space} {blocks : List Element} {store : RegisterStore}
    (h : blocks.foldlM (readRegisters spaces) .empty = .ok store) :
    DeclaredInOrder spaces (registerDeclarations blocks) store := by
  have hempty : DeclaredInOrder spaces (registerDeclarations []) .empty := .nil
  refine foldlM_passes (P := fun passed s => DeclaredInOrder spaces (registerDeclarations passed) s) ?_ hempty h
  intro passed s block next hpassed hnext
  have hadded := readRegisters_inOrder hpassed hnext
  rwa [registerDeclarations, List.flatMap_append]

theorem RegisterDeclaration.Declares.declaresRegister {spaces : List Space} {blocks : List Element}
    {d : RegisterDeclaration} {r : Register} (h : d.Declares spaces r) (hd : d ∈ registerDeclarations blocks) :
    DeclaresRegister blocks r := by
  obtain ⟨block, hblock, hd⟩ := List.mem_flatMap.mp hd
  obtain ⟨el, hel, rfl⟩ := List.mem_map.mp hd
  exact ⟨block, hblock, h.space_name, el, hel, h.register⟩

/-- A word of a table is `_`, or the name of a register. -/
theorem readEntry_cases {store : RegisterStore} {e : Element} {word : String} {entry : Option Register}
    (h : readEntry store e word = .ok entry) :
    (word = "_" ∧ entry = none) ∨ (word ≠ "_" ∧ ∃ r, store.register? word = some r ∧ entry = some r) := by
  unfold readEntry at h
  split at h
  · rename_i hword
    cases h; exact .inl ⟨hword, rfl⟩
  · rename_i hword
    split at h
    · simp [invalid] at h
    · rename_i r hr
      cases h; exact .inr ⟨hword, r, hr, rfl⟩

theorem readEntry_ok {store : RegisterStore} {e : Element} {word : String} {entry : Option Register}
    (h : readEntry store e word = .ok entry) : ∀ r, entry = some r → r ∈ store.registers := by
  rcases readEntry_cases h with ⟨-, rfl⟩ | ⟨-, found, hfound, rfl⟩
  · intro r hr
    cases hr
  · rintro r ⟨⟩
    exact RegisterStore.mem_of_register? hfound

theorem readTable_ok {store : RegisterStore} {tables : List RegisterTable} {e : Element} {t : RegisterTable}
    (h : readTable store tables e = .ok t) :
    tables.any (·.name == t.name) = false ∧ t.WellFormed store.registers := by
  simp only [readTable, bind_eq_ok, invalid, unless_eq_ok, pure_eq_ok] at h
  obtain ⟨name, -, hname, list, -, entries, hentries, hne, rfl⟩ := h
  refine ⟨by simpa using hname, by simpa using hne, fun r hr => ?_⟩
  exact forall_of_mapM hentries (P := fun entry => ∀ r, entry = some r → r ∈ store.registers)
    (fun _ _ _ hb => readEntry_ok hb) _ hr r rfl

theorem collect_tables {store : RegisterStore} {es : List Element} {tables : List RegisterTable}
    (h : collect (readTable store) [] es = .ok tables) : TablesWellFormed store.registers tables := by
  refine collect_keeps (P := TablesWellFormed store.registers) ?_ ⟨by simp, by simp⟩ h
  intro done e t hdone ht
  obtain ⟨hname, hwf⟩ := readTable_ok ht
  exact ⟨nodup_append_singleton hdone.distinct hname, forall_append_singleton hdone.each hwf⟩

theorem readContextField_ok {fields : List ContextField} {e : Element} {f : ContextField}
    (h : readContextField fields e = .ok f) : fields.any (·.name == f.name) = false ∧ f.WellFormed := by
  simp only [readContextField, bind_eq_ok, invalid, unless_eq_ok, boundedNumber_eq_ok, pure_eq_ok] at h
  obtain ⟨name, -, hname, width, ⟨n, -, -, -, hlow, hhigh⟩, value, -, hvalue, rfl⟩ := h
  refine ⟨by simpa using hname, hlow, hhigh, ?_⟩
  have hlt : value.toUInt32.toNat ≤ value.toNat := by
    rw [UInt64.toNat_toUInt32]
    exact Nat.mod_le _ _
  simp only [ContextField.fits, Nat.min_eq_left hhigh, decide_eq_true_eq]
  omega

theorem collect_contextFields {es : List Element} {fields : List ContextField}
    (h : collect readContextField [] es = .ok fields) : ContextFieldsWellFormed fields := by
  refine collect_keeps (P := ContextFieldsWellFormed) ?_ ⟨by simp, by simp⟩ h
  intro done e f hdone hf
  obtain ⟨hname, hwf⟩ := readContextField_ok hf
  exact ⟨nodup_append_singleton hdone.distinct hname, forall_append_singleton hdone.each hwf⟩

/-! ## Operands -/

theorem readSized_ok {expression : String} {cs : List Char} {value : Int} {size : Nat}
    (h : readSized expression cs = .ok (value, size)) : 1 ≤ size ∧ size ≤ 8 := by
  unfold readSized at h
  split at h
  · cases h
  · split at h
    · cases h
    · split at h
      · cases h
      · split at h
        · rename_i hsize
          cases h; exact hsize
        · cases h

/-- A bare expression is a position of the instruction, or the name of a field or else of a register. -/
theorem readNamed_cases {fields : List OperandField} {registers : RegisterStore} {expression : String}
    {t : OperandTemplate} (h : readNamed fields registers expression = .ok t) :
    t = .start ∨ t = .next ∨ (∃ f, fields.find? (·.name == expression) = some f ∧ t = .field f) ∨
      ∃ r, registers.register? expression = some r ∧ t = .register r := by
  unfold readNamed at h
  split at h
  · cases h; exact .inl rfl
  · split at h
    · cases h; exact .inr (.inl rfl)
    · split at h
      · rename_i f hf
        cases h; exact .inr (.inr (.inl ⟨f, hf, rfl⟩))
      · split at h
        · rename_i r hr
          cases h; exact .inr (.inr (.inr ⟨r, hr, rfl⟩))
        · cases h

/-- An expression with a mark in front is a constant, a temporary or a space; any other is a bare one. -/
theorem readOperand_cases {spaces : List Space} {registers : RegisterStore} {fields : List OperandField}
    {expression : String} {t : OperandTemplate} (h : readOperand spaces registers fields expression = .ok t) :
    (∃ body value size, readSized expression body = .ok (value, size) ∧
        t = .constant (UInt64.ofInt value &&& lowMask (8 * size)) size) ∨
      (∃ body offset size, readSized expression body = .ok (offset, size) ∧
        t = .temporary (UInt64.ofInt offset) size) ∨
      (∃ s ∈ spaces, t = .spaceNumber s) ∨ readNamed fields registers expression = .ok t := by
  unfold readOperand at h
  split at h
  · rename_i body _
    obtain ⟨⟨value, size⟩, hsized, rfl⟩ := map_eq_ok.mp h
    exact .inl ⟨body, value, size, hsized, rfl⟩
  · rename_i body _
    split at h
    · cases h
    · rename_i offset size hsized
      split at h
      · cases h
      · cases h; exact .inr (.inl ⟨body, offset, size, hsized, rfl⟩)
  · simp only at h
    split at h
    · cases h
    · rename_i s hs
      cases h; exact .inr (.inr (.inl ⟨s, List.mem_of_find?_eq_some hs, rfl⟩))
  · exact .inr (.inr (.inr h))

theorem readNamed_ok {d : Declarations} {fields : List OperandField} {expression : String} {t : OperandTemplate}
    (h : readNamed fields d.registerStore expression = .ok t) : t.Declared d fields := by
  rcases readNamed_cases h with rfl | rfl | ⟨f, hf, rfl⟩ | ⟨r, hr, rfl⟩
  · trivial
  · trivial
  · exact List.mem_of_find?_eq_some hf
  · exact RegisterStore.mem_of_register? hr

theorem readOperand_ok {d : Declarations} {fields : List OperandField} {expression : String} {t : OperandTemplate}
    (h : readOperand d.spaces d.registerStore fields expression = .ok t) : t.Declared d fields := by
  rcases readOperand_cases h with ⟨body, value, size, hsized, rfl⟩ | ⟨body, offset, size, hsized, rfl⟩ | ⟨s, hs, rfl⟩ | h
  · obtain ⟨hpos, hle⟩ := readSized_ok hsized
    exact ⟨hpos, hle, and_lowMask_le _ _⟩
  · exact readSized_ok hsized
  · exact hs
  · exact readNamed_ok h

theorem scanOperands_ok {fields : List OperandField} {operands : String} (cs : List Char) :
    ∀ {scan : Scan} {parts : List Fragment}, scanOperands fields operands scan cs = .ok parts →
      ∀ p ∈ parts, p.Declared fields := by
  have hliteral : ∀ seen, ∀ p ∈ literal seen, p.Declared fields := by
    intro seen p hp
    unfold literal at hp
    split at hp
    · cases hp
    · rw [List.mem_singleton.mp hp]; trivial
  induction cs with
  | nil =>
    intro scan parts h
    cases scan with
    | text seen => cases h; exact hliteral seen
    | name seen => cases h
  | cons c cs ih =>
    intro scan parts h
    cases scan with
    | text seen =>
      simp only [scanOperands] at h
      split at h
      · obtain ⟨rest, hrest, rfl⟩ := map_eq_ok.mp h
        intro p hp
        rcases List.mem_append.mp hp with hp | hp
        · exact hliteral seen p hp
        · exact ih hrest p hp
      · exact ih h
    | name seen =>
      simp only [scanOperands] at h
      split at h
      · split at h
        · cases h
        · rename_i f hf
          obtain ⟨rest, hrest, rfl⟩ := map_eq_ok.mp h
          intro p hp
          rcases List.mem_cons.mp hp with rfl | hp
          · exact List.mem_of_find?_eq_some hf
          · exact ih hrest p hp
      · exact ih h

/-! ## Instructions -/

def DescribesConstraint (el : Element) (c : Constraint) : Prop :=
  el.attribute? "field" = some c.field ∧ number el "value" = .ok c.value.toUInt64

structure DescribesOp (el : Element) (t : OpTemplate) : Prop where
  opcode : ∃ code, el.attribute? "code" = some code ∧ Opcode.ofName? code = some t.opcode
  output : t.output.isSome = (el.attribute? "out").isSome
  inputs : t.inputs.length = (Text.words ((el.attribute? "in").getD "")).length

/-- What an `<instruction>` element says of its encoding. -/
structure Describes (el : Element) (e : Encoding) : Prop where
  mnemonic : el.attribute? "mnemonic" = some e.mnemonic
  length : number el "length" = .ok (UInt64.ofNat e.length)
  mask : number el "mask" = .ok e.mask
  bits : number el "match" = .ok e.bits
  constraints : List.Forall₂ DescribesConstraint (el.childrenNamed "when") e.constraints
  ops : List.Forall₂ DescribesOp (el.childrenNamed "op") e.ops

theorem readConstraint_ok {d : Declarations} (hd : ContextFieldsWellFormed d.contextFields) {e : Element}
    {c : Constraint} (h : readConstraint d e = .ok c) : c.Declared d ∧ DescribesConstraint e c := by
  simp only [readConstraint, bind_eq_ok, attr_eq_ok] at h
  obtain ⟨name, hname, h⟩ := h
  split at h
  · cases h
  · rename_i f hf
    simp only [bind_eq_ok, invalid, unless_eq_ok, pure_eq_ok] at h
    obtain ⟨value, hvalue, hfits, rfl⟩ := h
    obtain ⟨hmem, rfl⟩ := find?_name hf
    have hwidth : capacity f.width ≤ UInt32.size := capacity_mono (hd.each f hmem).width_le
    have hnat : value.toUInt32.toNat = value.toNat := by
      rw [UInt64.toNat_toUInt32]
      exact Nat.mod_eq_of_lt (by change _ < UInt32.size; omega)
    refine ⟨⟨f, hmem, rfl, by rw [hnat]; omega⟩, hname, ?_⟩
    rw [hvalue, Except.ok.injEq, ← UInt64.toNat_inj, UInt32.toNat_toUInt64, hnat]

/-- What the kind of a field is read from. -/
theorem readFieldKind_cases {d : Declarations} {e : Element} {width : Nat} {k : FieldKind}
    (h : readFieldKind d e width = .ok k) :
    (∃ name table, e.attribute? "table" = some name ∧ d.tables.find? (·.name == name) = some table ∧
        k = .register table) ∨
      (∃ isSigned size, k = .immediate isSigned size ∧
        (numberOr e "size" (UInt64.ofNat ((width + 7) / 8))).bind (inRange e "size" 1 8) = .ok size) ∨
      (∃ scale, k = .relative scale ∧ readScale e = .ok scale) ∨ k = .absolute := by
  simp only [readFieldKind, bind_eq_ok] at h
  obtain ⟨kind, -, h⟩ := h
  split at h
  · simp only [bind_eq_ok, attr_eq_ok] at h
    obtain ⟨name, hname, h⟩ := h
    split at h
    · cases h
    · rename_i table htable
      cases h
      exact .inl ⟨name, table, hname, htable, rfl⟩
  · split at h
    · simp only [bind_eq_ok, pure_eq_ok] at h
      obtain ⟨size, hsize, isSigned, -, rfl⟩ := h
      exact .inr (.inl ⟨isSigned, size, rfl, hsize⟩)
    · split at h
      · obtain ⟨scale, hscale, h⟩ := bind_eq_ok.mp h
        cases h
        exact .inr (.inr (.inl ⟨scale, rfl, hscale⟩))
      · split at h
        · cases h
          exact .inr (.inr (.inr rfl))
        · simp [invalid] at h

theorem readFieldKind_ok {d : Declarations} {e : Element} {width : Nat} {k : FieldKind}
    (h : readFieldKind d e width = .ok k) : k.Declared d.tables := by
  rcases readFieldKind_cases h with ⟨_, table, -, htable, rfl⟩ | ⟨isSigned, size, rfl, hsize⟩ | ⟨scale, rfl, -⟩ | rfl
  · exact List.mem_of_find?_eq_some htable
  · obtain ⟨n, -, hrange⟩ := exceptBind_eq_ok.mp hsize
    obtain ⟨-, -, hlow, hhigh⟩ := inRange_eq_ok.mp hrange
    exact ⟨hlow, hhigh⟩
  · trivial
  · trivial

/-- What the parts of a field are read from. -/
structure ReadsField (d : Declarations) (length : Nat) (fields : List OperandField) (e : Element) (f : OperandField) :
    Prop where
  name : e.attribute? "name" = some f.name
  fresh : fields.any (·.name == f.name) = false
  width : smallNumber e "width" = .ok f.width
  inside : 1 ≤ f.width ∧ f.lsb + f.width ≤ 8 * length
  kind : readFieldKind d e f.width = .ok f.kind

theorem readOperandField_reads {d : Declarations} {mnemonic : String} {length : Nat} {fields : List OperandField}
    {e : Element} {f : OperandField} (h : readOperandField d mnemonic length fields e = .ok f) :
    ReadsField d length fields e f := by
  simp only [readOperandField, bind_eq_ok, attr_eq_ok, unless_eq_ok, pure_eq_ok] at h
  obtain ⟨name, hname, hfresh, lsb, -, width, hwidth, hsize, kind, hkind, rfl⟩ := h
  simp only [not_or, Nat.not_lt] at hsize
  exact ⟨hname, by simpa using hfresh, hwidth, ⟨Nat.pos_of_ne_zero hsize.1, hsize.2⟩, hkind⟩

theorem readOperandField_ok {d : Declarations} {mnemonic : String} {length : Nat} {fields : List OperandField}
    {e : Element} {f : OperandField} (h : readOperandField d mnemonic length fields e = .ok f) :
    fields.any (·.name == f.name) = false ∧ f.WellFormed d length := by
  have hreads := readOperandField_reads h
  exact ⟨hreads.fresh, hreads.inside.1, hreads.inside.2, readFieldKind_ok hreads.kind⟩

theorem collect_operandFields {d : Declarations} {mnemonic : String} {length : Nat} {es : List Element}
    {fields : List OperandField} (h : collect (readOperandField d mnemonic length) [] es = .ok fields) :
    FieldsWellFormed d length fields := by
  refine collect_keeps (P := FieldsWellFormed d length) ?_ ⟨by simp, by simp⟩ h
  intro done e f hdone hf
  obtain ⟨hname, hwf⟩ := readOperandField_ok hf
  exact ⟨nodup_append_singleton hdone.distinct hname, forall_append_singleton hdone.each hwf⟩

theorem readOutput_ok {d : Declarations} {mnemonic : String} {fields : List OperandField} {e : Element}
    {output : Option OperandTemplate} (h : readOutput d mnemonic fields e = .ok output) :
    output.isSome = (e.attribute? "out").isSome ∧ ∀ o, output = some o → o.Declared d fields ∧ o.isWritable = true := by
  unfold readOutput at h
  split at h
  · rename_i hnone
    cases h; simp [hnone]
  · rename_i text htext
    simp only [bind_eq_ok, within, mapError_eq_ok] at h
    obtain ⟨o, ho, h⟩ := h
    split at h
    · cases h
      refine ⟨by simp [htext], ?_⟩
      rintro o' ⟨⟩
      exact ⟨readOperand_ok ho, ‹_›⟩
    · cases h

theorem readOp_ok {d : Declarations} {mnemonic : String} {fields : List OperandField} {e : Element} {t : OpTemplate}
    (h : readOp d mnemonic fields e = .ok t) : t.Declared d fields ∧ DescribesOp e t := by
  simp only [readOp, bind_eq_ok, attr_eq_ok] at h
  obtain ⟨code, hcode, h⟩ := h
  split at h
  · simp [invalid] at h
  · rename_i opcode hopcode
    simp only [bind_eq_ok, within, mapError_eq_ok, pure_eq_ok] at h
    obtain ⟨output, houtput, inputs, hinputs, rfl⟩ := h
    obtain ⟨hsome, hout⟩ := readOutput_ok houtput
    refine ⟨⟨hout, forall_of_mapM hinputs fun _ _ _ hb => readOperand_ok hb⟩, ⟨code, hcode, hopcode⟩, hsome, ?_⟩
    exact (mapM_eq_ok.mp hinputs).length_eq.symm

/-- An encoding that is read is well-formed, and the one that its element describes. -/
theorem readEncoding_ok {d : Declarations} (hd : ContextFieldsWellFormed d.contextFields) {el : Element} {e : Encoding}
    (h : readEncoding d el = .ok e) : e.WellFormed d ∧ Describes el e := by
  simp only [readEncoding, bind_eq_ok, unless_eq_ok, boundedNumber_eq_ok, within, mapError_eq_ok, attr_eq_ok,
    pure_eq_ok] at h
  obtain ⟨mnemonic, hmnemonic, length, ⟨n, hn, rfl, -, hlow, hhigh⟩, mask, hmask, bits, hbits, hwide, hunder,
    constraints, hconstraints, fields, hfields, operands, hoperands, ops, hops, rfl⟩ := h
  refine ⟨⟨hlow, hhigh, by simpa using hwide, by simpa using hunder, ?_, collect_operandFields hfields,
    scanOperands_ok _ hoperands, ?_⟩, hmnemonic, hn, hmask, hbits, ?_, ?_⟩
  · exact forall_of_mapM hconstraints fun _ _ _ hb => (readConstraint_ok hd hb).1
  · exact forall_of_mapM hops fun _ _ _ hb => (readOp_ok hb).1
  · exact (mapM_eq_ok.mp hconstraints).imp fun _ _ hb => (readConstraint_ok hd hb).2
  · exact (mapM_eq_ok.mp hops).imp fun _ _ hb => (readOp_ok hb).2

/-! ## Order -/

/-- Shortest first, in the given order within a length. -/
structure InOrderOfLength (given sorted : List Encoding) : Prop where
  ascending : sorted.Pairwise fun e f => e.length ≤ f.length
  stable : ∀ n, sorted.filter (·.length == n) = given.filter (·.length == n)

theorem filter_flatMap_filter (es : List Encoding) (n : Nat) :
    ∀ ns : List Nat, ns.Nodup → (ns.flatMap fun m => es.filter (·.length == m)).filter (·.length == n) =
      if n ∈ ns then es.filter (·.length == n) else [] := by
  intro ns
  induction ns with
  | nil => intro _; rfl
  | cons m ns ih =>
    intro hns
    obtain ⟨hm, hns⟩ := List.nodup_cons.mp hns
    rw [List.flatMap_cons, List.filter_append, ih hns, List.filter_filter]
    by_cases hmn : n = m
    · subst hmn
      simp [hm]
    · have hnone : es.filter (fun e => e.length == n && e.length == m) = [] := by
        simp only [List.filter_eq_nil_iff, Bool.and_eq_true, beq_iff_eq]
        omega
      simp [hnone, hmn]

theorem byLength_ordered {es : List Encoding} (h : ∀ e ∈ es, 1 ≤ e.length ∧ e.length ≤ maxInstructionSize) :
    InOrderOfLength es (byLength es) := by
  refine ⟨?_, fun n => ?_⟩
  · rw [byLength, List.pairwise_flatMap]
    constructor
    · intro n _
      refine List.pairwise_of_forall_mem_list ?_
      intro e he f hf
      rw [List.mem_filter, beq_iff_eq] at he hf
      omega
    · refine List.Pairwise.imp ?_ (List.pairwise_lt_range')
      intro n m hnm e he f hf
      rw [List.mem_filter, beq_iff_eq] at he hf
      omega
  · rw [byLength, filter_flatMap_filter es n _ List.nodup_range']
    split
    · rfl
    · rename_i hn
      symm
      rw [List.filter_eq_nil_iff]
      intro e he hen
      rw [beq_iff_eq] at hen
      have := h e he
      exact hn (by rw [List.mem_range'_1]; omega)

/-- Put in order, no encoding is added. -/
theorem InOrderOfLength.mem {given sorted : List Encoding} (h : InOrderOfLength given sorted) {e : Encoding}
    (he : e ∈ sorted) : e ∈ given := by
  have hfilter : e ∈ sorted.filter (·.length == e.length) := List.mem_filter.mpr ⟨he, by simp⟩
  rw [h.stable] at hfilter
  exact (List.mem_filter.mp hfilter).1

theorem mem_byLength {es : List Encoding} {e : Encoding} (h : e ∈ byLength es) : e ∈ es := by
  rw [byLength, List.mem_flatMap] at h
  obtain ⟨n, -, he⟩ := h
  exact (List.mem_filter.mp he).1

end Lifter.Specification

namespace Lifter

open Specification

/-! ## The language -/

/-- The readings that make up an accepted description. -/
theorem ofElement_parts {root : Element} {l : Language} (h : Language.ofElement root = .ok l) :
    ∃ spacesElement declared instructions encodings,
      l.alignment ∈ [1, 2, 4, 8] ∧
      collect (readSpace l.bigEndian) [constantSpace l.bigEndian] (spacesElement.childrenNamed "space") = .ok declared ∧
      readCodeSpace spacesElement declared = .ok l.codeSpace ∧
      withUnique l.bigEndian declared = (l.spaces, l.uniqueSpace) ∧
      l.constantSpace = constantSpace l.bigEndian ∧
      (root.childrenNamed "registers").foldlM (readRegisters l.spaces) .empty = .ok l.registerStore ∧
      collect (readTable l.registerStore) [] (root.childrenNamed "table") = .ok l.tables ∧
      collect readContextField [] (((root.child? "context").map (·.childrenNamed "field")).getD []) =
        .ok l.contextFields ∧
      root.child? "instructions" = some instructions ∧
      (instructions.childrenNamed "instruction").mapM (readEncoding l.declarations) = .ok encodings ∧
      l.encodings = byLength encodings := by
  simp only [Language.ofElement, bind_eq_ok, child_eq_ok, pure_eq_ok] at h
  obtain ⟨processor, hprocessor, spacesElement, -, declared, hdeclared, codeSpace, hcode, registers, hregisters, tables,
    htables, contextFields, hcontext, instructions, hinstructions, encodings, hencodings, rfl⟩ := h
  exact ⟨spacesElement, declared, instructions, encodings, readProcessor_ok hprocessor, hdeclared, hcode, rfl, rfl,
    hregisters, htables, hcontext, hinstructions, hencodings, rfl⟩

theorem ofElement_wellFormed {root : Element} {l : Language} (h : Language.ofElement root = .ok l) : l.WellFormed := by
  obtain ⟨spacesElement, declared, instructions, encodings, halign, hdeclared, hcode, hunique, hconstant, hregisters,
    htables, hcontext, -, hencodings, hsorted⟩ := ofElement_parts h
  obtain ⟨hspaces, hfirst⟩ := collect_spaces hdeclared
  have hpos : declared ≠ [] := by rintro rfl; cases hfirst
  obtain ⟨hall, hinit, hmem, hname⟩ := withUnique_ok hspaces hpos hunique
  obtain ⟨hcodeMem, hcodeKind⟩ := readCodeSpace_ok hcode
  have hfields := collect_contextFields hcontext
  refine ⟨halign, hall, ?_, hinit.subset hcodeMem, hcodeKind, hmem, hname, ?_, collect_tables htables, hfields, ?_⟩
  · obtain ⟨rest, hrest⟩ := hinit
    rw [← hrest, List.getElem?_append_left (List.length_pos_of_ne_nil hpos), hconstant, hfirst]
  · exact foldlM_keeps (P := RegistersWellFormed l.spaces) (fun _ _ _ hb hr => readRegisters_ok hb hr)
      (registersWellFormed_empty _) hregisters
  · intro e he
    rw [hsorted] at he
    exact forall_of_mapM hencodings (fun _ _ _ hb => (readEncoding_ok hfields hb).1) e (mem_byLength he)

/-- The encodings of an accepted language are those that its description declares, in order. -/
theorem ofElement_encodings {root : Element} {l : Language} (h : Language.ofElement root = .ok l) :
    ∃ instructions declared, root.child? "instructions" = some instructions ∧
      List.Forall₂ Describes (instructions.childrenNamed "instruction") declared ∧
      InOrderOfLength declared l.encodings := by
  obtain ⟨-, -, instructions, encodings, -, -, -, -, -, -, -, hcontext, hinstructions, hencodings, hsorted⟩ :=
    ofElement_parts h
  have hfields := collect_contextFields hcontext
  refine ⟨instructions, encodings, hinstructions, ?_, ?_⟩
  · exact (mapM_eq_ok.mp hencodings).imp fun _ _ hb => (readEncoding_ok hfields hb).2
  · rw [hsorted]
    refine byLength_ordered (forall_of_mapM hencodings fun _ _ _ hb => ?_)
    have hwf := (readEncoding_ok hfields hb).1
    exact ⟨hwf.length_pos, hwf.length_le⟩

/-- The registers of an accepted language are those that its description declares, in order. -/
theorem ofElement_registersInOrder {root : Element} {l : Language} (h : Language.ofElement root = .ok l) :
    DeclaredInOrder l.spaces (registerDeclarations (root.childrenNamed "registers")) l.registerStore := by
  obtain ⟨-, -, -, -, -, -, -, -, -, hregisters, -⟩ := ofElement_parts h
  exact foldlM_registers_inOrder hregisters

theorem ofElement_registers {root : Element} {l : Language} (h : Language.ofElement root = .ok l) :
    ∀ r ∈ l.registers, DeclaresRegister (root.childrenNamed "registers") r := by
  intro r hr
  obtain ⟨d, hd, hdeclares⟩ := exists_of_forall₂ (ofElement_registersInOrder h) r hr
  exact hdeclares.declaresRegister hd

/-- A word of a table: `_` for a reserved slot, or the name of a register. -/
def DescribesEntry (l : Language) (word : String) (entry : Option Register) : Prop :=
  if word = "_" then entry = none else ∃ r, l.register? word = some r ∧ entry = some r

/-- The table has the declared name, and a slot for each word of the declared list. -/
structure DescribesTable (l : Language) (el : Element) (t : RegisterTable) : Prop where
  name : el.attribute? "name" = some t.name
  entries : ∃ list, el.attribute? "registers" = some list ∧
    List.Forall₂ (DescribesEntry l) (Text.words list) t.entries

theorem readEntry_describes {l : Language} {el : Element} {word : String} {entry : Option Register}
    (h : readEntry l.registerStore el word = .ok entry) : DescribesEntry l word entry := by
  unfold DescribesEntry
  rcases readEntry_cases h with ⟨hword, rfl⟩ | ⟨hword, r, hr, rfl⟩
  · rw [if_pos hword]
  · rw [if_neg hword]
    exact ⟨r, hr, rfl⟩

theorem readTable_describes {l : Language} {tables : List RegisterTable} {el : Element} {t : RegisterTable}
    (h : readTable l.registerStore tables el = .ok t) : DescribesTable l el t := by
  simp only [readTable, bind_eq_ok, attr_eq_ok, invalid, unless_eq_ok, pure_eq_ok] at h
  obtain ⟨name, hname, -, list, hlist, entries, hentries, -, rfl⟩ := h
  exact ⟨hname, list, hlist, (mapM_eq_ok.mp hentries).imp fun _ _ => readEntry_describes⟩

/-- The tables of an accepted language are the declared ones, in order. -/
theorem ofElement_tables {root : Element} {l : Language} (h : Language.ofElement root = .ok l) :
    List.Forall₂ (DescribesTable l) (root.childrenNamed "table") l.tables := by
  obtain ⟨-, -, -, -, -, -, -, -, -, -, htables, -⟩ := ofElement_parts h
  obtain ⟨news, hnews, hread⟩ := collect_forall₂ htables
  rw [hnews]
  exact hread.imp fun _ _ ⟨_, ht⟩ => readTable_describes ht

theorem ofElement_constantSpace {root : Element} {l : Language} (h : Language.ofElement root = .ok l) :
    l.constantSpace = constantSpace l.bigEndian := by
  obtain ⟨-, -, -, -, -, -, -, -, hconstant, -⟩ := ofElement_parts h
  exact hconstant

/-- Every part of an accepted language is well-formed; a name of a register leads to its position, and no
    other name to any. -/
theorem accepted_wellFormed {root : Element} {l : Language} (accepted : Language.ofElement root = .ok l) :
    l.WellFormed ∧ (l.encodings.Pairwise fun c d => c.length ≤ d.length) ∧
      (∀ name i, l.registerStore.position? name = some i ↔ ∃ r : Register, l.registers[i]? = some r ∧ r.name = name) ∧
      ∀ name, l.register? name = l.registers.find? (·.name == name) := by
  have hw := ofElement_wellFormed accepted
  obtain ⟨_, _, _, _, hordered⟩ := ofElement_encodings accepted
  exact ⟨hw, hordered.ascending, hw.registers.index, hw.registers.index.register?_eq⟩

/-! ## A small description -/

namespace Sample

def leaf (name : String) (attributes : List (String × String)) : Element := ⟨name, attributes, "", []⟩

/-- Two spaces, two registers, a table with a reserved entry, a context field and two instructions,
    of which the longer one needs the context. -/
def root : Element :=
  ⟨"processor", [("name", "sample"), ("endian", "big")], "",
    [⟨"spaces", [("default", "ram")], "",
        [leaf "space" [("name", "ram"), ("size", "2")], leaf "space" [("name", "register"), ("size", "1")]]⟩,
      ⟨"registers", [("space", "register")], "",
        [leaf "register" [("name", "A"), ("offset", "0"), ("size", "1")],
          leaf "register" [("name", "B"), ("offset", "1"), ("size", "1")]]⟩,
      leaf "table" [("name", "ab"), ("registers", "A B _")],
      ⟨"context", [], "", [leaf "field" [("name", "wide"), ("width", "1")]]⟩,
      ⟨"instructions", [], "",
        [⟨"instruction",
            [("mnemonic", "jump"), ("length", "2"), ("mask", "0xff00"), ("match", "0x2000"), ("operands", "{to}")], "",
            [leaf "when" [("field", "wide"), ("value", "1")],
              leaf "field" [("name", "to"), ("lsb", "0"), ("width", "8"), ("kind", "relative")],
              leaf "op" [("code", "BRANCH"), ("in", "to")]]⟩,
          ⟨"instruction",
            [("mnemonic", "inc"), ("length", "1"), ("mask", "0xfc"), ("match", "0x10"), ("operands", "{r}")], "",
            [leaf "field" [("name", "r"), ("lsb", "0"), ("width", "2"), ("kind", "register"), ("table", "ab")],
              leaf "op" [("code", "INT_ADD"), ("out", "$0:1"), ("in", "r #1:1")],
              leaf "op" [("code", "COPY"), ("out", "r"), ("in", "$0:1")]]⟩]⟩]⟩

def ram : Space := ⟨⟨1⟩, "ram", .processor, 2, 1, true⟩

def registerSpace : Space := ⟨⟨2⟩, "register", .processor, 1, 1, true⟩

def unique : Space := ⟨⟨3⟩, "unique", .internal, 4, 1, true⟩

def a : Register := ⟨"A", ⟨registerSpace, 0, 1⟩⟩

def b : Register := ⟨"B", ⟨registerSpace, 1, 1⟩⟩

def table : RegisterTable := ⟨"ab", [some a, some b, none]⟩

def field : OperandField := ⟨"r", 0, 2, .register table⟩

def target : OperandField := ⟨"to", 0, 8, .relative 1⟩

def inc : Encoding where
  mnemonic := "inc"
  length := 1
  mask := 0xfc
  bits := 0x10
  constraints := []
  fields := [field]
  operands := [.field field]
  ops := [⟨.intAdd, some (.temporary 0 1), [.field field, .constant 1 1]⟩,
    ⟨.copy, some (.field field), [.temporary 0 1]⟩]

def jump : Encoding where
  mnemonic := "jump"
  length := 2
  mask := 0xff00
  bits := 0x2000
  constraints := [⟨"wide", 1⟩]
  fields := [target]
  operands := [.field target]
  ops := [⟨.branch, none, [.field target]⟩]

def language : Language where
  name := "sample"
  bigEndian := true
  alignment := 1
  spaces := [constantSpace true, ram, registerSpace, unique]
  constantSpace := constantSpace true
  codeSpace := ram
  uniqueSpace := unique
  registerStore := ⟨[a, b], [("B", 1), ("A", 0)]⟩
  tables := [table]
  contextFields := [⟨"wide", 1, 0⟩]
  encodings := [inc, jump]

theorem accepted : Language.ofElement root = .ok language := by rfl

end Sample

theorem accepted_wellFormed_sample :
    Language.ofElement Sample.root = .ok Sample.language ∧ Sample.language.register? "B" = some Sample.b ∧
      Sample.language.WellFormed ∧ (Sample.language.encodings.Pairwise fun c d => c.length ≤ d.length) ∧
      (∀ name i, Sample.language.registerStore.position? name = some i ↔
        ∃ r : Register, Sample.language.registers[i]? = some r ∧ r.name = name) ∧
      ∀ name, Sample.language.register? name = Sample.language.registers.find? (·.name == name) :=
  ⟨Sample.accepted, by rfl, accepted_wellFormed Sample.accepted⟩

end Lifter
