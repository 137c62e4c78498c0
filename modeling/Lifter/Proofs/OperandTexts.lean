/-
  Lifter.Proofs.OperandTexts — operand texts with their placeholders filled in.

  A template is read into fragments: fields for its placeholders, literals for what
  stands between them. `FilledIn` compares a template with a text directly, character by
  character: a placeholder goes with what is shown for its name, and everything else is
  copied. Going through the fragments comes to the same, whatever is shown for a field
  (`readOperands_filled`). So writing every field back as its placeholder gives the
  template again (`readOperands_written`).
-/

import Lifter.Proofs.Machine
import Lifter.Proofs.Reading

namespace Lifter

open Specification

/-- The text is the template with what is shown for its name in place of each placeholder; all else is
    copied. -/
inductive FilledIn (shown : String → String → Prop) : List Char → List Char → Prop where
  | nil : FilledIn shown [] []
  | copied {c : Char} {template text : List Char} (plain : c ≠ '\x7b') (rest : FilledIn shown template text) :
      FilledIn shown (c :: template) (c :: text)
  | placed {name template text : List Char} {piece : String} (closed : '\x7d' ∉ name)
      (named : shown (String.ofList name) piece) (rest : FilledIn shown template text) :
      FilledIn shown ('\x7b' :: (name ++ '\x7d' :: template)) (piece.toList ++ text)

/-- What a fragment prints if fields are shown in this way. -/
def Fragment.Prints (shown : OperandField → String → Prop) : Fragment → String → Prop
  | .literal s, text => text = s
  | .field f, text => shown f text

/-- The name is that of one of the fields, which is shown in this way. -/
def ShownByName (fields : List OperandField) (shown : OperandField → String → Prop) (name piece : String) : Prop :=
  ∃ f ∈ fields, f.name = name ∧ shown f piece

/-- The fragments, one behind the other, print these characters. -/
def Spells (shown : OperandField → String → Prop) (parts : List Fragment) (text : List Char) : Prop :=
  ∃ pieces : List String, List.Forall₂ (Fragment.Prints shown) parts pieces ∧ pieces.flatMap (·.toList) = text

namespace Spells

variable {shown : OperandField → String → Prop} {parts : List Fragment} {text : List Char}

theorem field_cons {f : OperandField} :
    Spells shown (.field f :: parts) text ↔
      ∃ piece rest, shown f piece ∧ Spells shown parts rest ∧ text = piece.toList ++ rest := by
  constructor
  · intro h
    obtain ⟨pieces, hpieces, rfl⟩ := h
    cases hpieces with
    | cons hpiece hrest => exact ⟨_, _, hpiece, ⟨_, hrest, rfl⟩, List.flatMap_cons⟩
  · intro h
    obtain ⟨piece, rest, hpiece, ⟨pieces, hpieces, rfl⟩, rfl⟩ := h
    exact ⟨piece :: pieces, .cons hpiece hpieces, List.flatMap_cons⟩

/-- The characters of a literal come back in their order. -/
theorem literal_append {seen : List Char} :
    Spells shown (literal seen ++ parts) text ↔ ∃ rest, Spells shown parts rest ∧ text = seen.reverse ++ rest := by
  by_cases hseen : seen = []
  · subst hseen
    simp [literal]
  · have hliteral : literal seen = [.literal (String.ofList seen.reverse)] := by simp [literal, hseen]
    rw [hliteral, List.singleton_append]
    constructor
    · intro h
      obtain ⟨pieces, hpieces, rfl⟩ := h
      cases hpieces with
      | cons hpiece hrest =>
        cases hpiece
        exact ⟨_, ⟨_, hrest, rfl⟩, by rw [List.flatMap_cons, String.toList_ofList]⟩
    · intro h
      obtain ⟨rest, ⟨pieces, hpieces, rfl⟩, rfl⟩ := h
      exact ⟨_ :: pieces, .cons rfl hpieces, by rw [List.flatMap_cons, String.toList_ofList]⟩

theorem literal_only {seen : List Char} : Spells shown (literal seen) text ↔ text = seen.reverse := by
  rw [← List.append_nil (literal seen), literal_append]
  constructor
  · intro h
    obtain ⟨rest, ⟨pieces, hpieces, rfl⟩, rfl⟩ := h
    cases hpieces
    simp
  · intro h
    exact ⟨[], ⟨[], .nil, rfl⟩, by simpa using h⟩

end Spells

/-! ## Reading and filling in -/

section Scanning

variable {fields : List OperandField} {operands : String} {shown : OperandField → String → Prop}

/-- The text is the run that a scan has pending, and behind it the rest of the template, filled in. -/
def Specification.Scan.Fills (scan : Scan) (named : String → String → Prop) (template text : List Char) : Prop :=
  match scan with
  | .text seen => ∃ rest, FilledIn named template rest ∧ text = seen.reverse ++ rest
  | .name seen => '\x7d' ∉ seen → FilledIn named ('\x7b' :: (seen.reverse ++ template)) text

theorem scanOperands_fills (template : List Char) :
    ∀ {scan : Scan} {parts : List Fragment} {text : List Char}, scanOperands fields operands scan template = .ok parts →
      Spells shown parts text → scan.Fills (ShownByName fields shown) template text := by
  induction template with
  | nil =>
    intro scan parts text h hspells
    cases scan with
    | text seen =>
      cases h
      exact ⟨[], .nil, by rw [Spells.literal_only.mp hspells, List.append_nil]⟩
    | name seen => cases h
  | cons c template ih =>
    intro scan parts text h hspells
    cases scan with
    | text seen =>
      simp only [scanOperands] at h
      split at h
      · rename_i hopen
        subst hopen
        obtain ⟨after, hafter, rfl⟩ := map_eq_ok.mp h
        obtain ⟨rest, hrest, rfl⟩ := Spells.literal_append.mp hspells
        exact ⟨rest, by simpa using ih hafter hrest (by simp), rfl⟩
      · rename_i hplain
        obtain ⟨rest, hrest, rfl⟩ := ih h hspells
        exact ⟨c :: rest, .copied hplain hrest, by simp⟩
    | name seen =>
      simp only [scanOperands] at h
      intro hseen
      split at h
      · rename_i hclose
        subst hclose
        split at h
        · cases h
        · rename_i f hf
          obtain ⟨after, hafter, rfl⟩ := map_eq_ok.mp h
          obtain ⟨piece, rest, hpiece, hrest, rfl⟩ := Spells.field_cons.mp hspells
          obtain ⟨rest', hfilled, rfl⟩ := ih hafter hrest
          obtain ⟨hmem, hname⟩ := find?_name hf
          exact .placed (by simpa using hseen) ⟨f, hmem, hname, hpiece⟩ (by simpa using hfilled)
      · rename_i hopen
        have hfilled := ih h hspells (by simp [hseen, Ne.symm hopen])
        simpa using hfilled

/-- A name is read up to the brace that closes it. -/
theorem scanOperands_name {name : List Char} (hclosed : '\x7d' ∉ name) (template : List Char) :
    ∀ seen, scanOperands fields operands (.name seen) (name ++ '\x7d' :: template) =
      scanOperands fields operands (.name (name.reverse ++ seen)) ('\x7d' :: template) := by
  induction name with
  | nil => intro seen; rfl
  | cons c name ih =>
    intro seen
    rw [List.mem_cons, not_or] at hclosed
    rw [List.cons_append, scanOperands, if_neg (Ne.symm hclosed.1), ih hclosed.2]
    simp

/-- A template that can be filled in can be read. -/
theorem FilledIn.scanOperands_spells (operands : String) (hdistinct : (fields.map (·.name)).Nodup)
    {template text : List Char} (h : FilledIn (ShownByName fields shown) template text) :
    ∀ seen, ∃ parts, scanOperands fields operands (.text seen) template = .ok parts ∧
      Spells shown parts (seen.reverse ++ text) := by
  induction h with
  | nil =>
    intro seen
    exact ⟨literal seen, rfl, Spells.literal_only.mpr (List.append_nil _)⟩
  | @copied c template text hplain _ ih =>
    intro seen
    obtain ⟨parts, hparts, hspells⟩ := ih (c :: seen)
    refine ⟨parts, ?_, by simpa using hspells⟩
    rw [scanOperands, if_neg hplain, hparts]
  | @placed name template text piece hclosed hnamed _ ih =>
    intro seen
    obtain ⟨f, hf, hname, hpiece⟩ := hnamed
    obtain ⟨parts, hparts, hspells⟩ := ih []
    have hfind : fields.find? (·.name == String.ofList name) = some f := by
      rw [← hname]
      exact Checked.find?_name_eq hdistinct hf
    refine ⟨literal seen ++ .field f :: parts, ?_, ?_⟩
    · rw [scanOperands, if_pos rfl, scanOperands_name hclosed, scanOperands, if_pos rfl]
      simp [hfind, hparts, Except.map]
    · exact Spells.literal_append.mpr ⟨_, Spells.field_cons.mpr ⟨piece, text, hpiece, hspells, rfl⟩, rfl⟩

/-- What the fragments of a template print is the template filled in, however fields are shown. -/
theorem readOperands_filled (hdistinct : (fields.map (·.name)).Nodup) {parts : List Fragment}
    (h : readOperands fields operands = .ok parts) (shown : OperandField → String → Prop) (text : List Char) :
    Spells shown parts text ↔ FilledIn (ShownByName fields shown) operands.toList text := by
  constructor
  · intro hspells
    obtain ⟨rest, hfilled, rfl⟩ := scanOperands_fills _ h hspells
    exact hfilled
  · intro hfilled
    obtain ⟨parts', hparts', hspells⟩ := hfilled.scanOperands_spells operands hdistinct []
    rw [readOperands, hparts'] at h
    cases h
    exact hspells

end Scanning

/-! ## Writing a template back -/

/-- A field as its placeholder. -/
def OperandField.placeholder (f : OperandField) : String := "\x7b" ++ f.name ++ "\x7d"

def Fragment.written : Fragment → String
  | .literal s => s
  | .field f => f.placeholder

theorem spells_written (parts : List Fragment) :
    Spells (fun f piece => piece = f.placeholder) parts (parts.flatMap (·.written.toList)) := by
  refine ⟨parts.map Fragment.written, ?_, by rw [List.flatMap_map]⟩
  rw [List.forall₂_map_right_iff, List.forall₂_same]
  intro p _
  cases p <;> rfl

/-- Placeholders filled in with themselves give the template again. -/
theorem FilledIn.eq_template {fields : List OperandField} {template text : List Char}
    (h : FilledIn (ShownByName fields fun f piece => piece = f.placeholder) template text) : text = template := by
  induction h with
  | nil => rfl
  | copied _ _ ih => rw [ih]
  | placed _ hnamed _ ih =>
    obtain ⟨f, -, hname, rfl⟩ := hnamed
    rw [ih, OperandField.placeholder, hname]
    simp

theorem readOperands_written {fields : List OperandField} (hdistinct : (fields.map (·.name)).Nodup) {operands : String}
    {parts : List Fragment} (h : readOperands fields operands = .ok parts) :
    parts.flatMap (·.written.toList) = operands.toList :=
  ((readOperands_filled hdistinct h _ _).mp (spells_written parts)).eq_template

end Lifter
