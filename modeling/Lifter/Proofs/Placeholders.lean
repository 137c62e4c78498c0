/-
  Lifter.Proofs.Placeholders — which operand texts are templates.

  Outside of a placeholder an opening brace begins one; the first closing brace behind it
  ends it, and what stands between them has to be the name of a field (`WellPlaced`). In
  every other text there is a first brace of which this does not hold, and the kind of
  the error depends on it alone (`Misplaced`). Closing braces that nothing opened are copied.

  Fragments are `Normal` if no literal is empty, has an opening brace or follows another
  literal. They are read back from what they are written as
  (`Normal.scanOperands_written`), and every well placed text is written so
  (`WellPlaced.exists_normal`). So reading is a bijection between the two
  (`readOperands_faithful`), and an accepted language keeps the operand text of every
  instruction (`DeclaredBy.operands_written`).

  A text may be read character by character, or placeholder by placeholder: each pass
  cuts what is left at the first opening brace, and behind it at the first closing one.
  `Passes` is that loop. Each pass takes something away, so the loop ends; it ends in one
  way, and that is what reading the characters comes to (`exists_passes`,
  `Passes.unique`).
-/

import Lifter.Proofs.OperandTexts
import Lifter.Proofs.Operands
import Mathlib.Data.List.Chain

namespace Lifter

open Specification

/-- Each opening brace begins the placeholder of a field. -/
inductive WellPlaced (fields : List OperandField) : List Char → Prop where
  | nil : WellPlaced fields []
  | copied {c : Char} {template : List Char} (plain : c ≠ '\x7b') (rest : WellPlaced fields template) :
      WellPlaced fields (c :: template)
  | placed {name template : List Char} (closed : '\x7d' ∉ name) (named : ∃ f ∈ fields, f.name = String.ofList name)
      (rest : WellPlaced fields template) : WellPlaced fields ('\x7b' :: (name ++ '\x7d' :: template))

/-- The first opening brace that begins no placeholder is reported in this way. -/
inductive Misplaced (fields : List OperandField) (operands : String) : List Char → InstructionError → Prop where
  | unclosed {template : List Char} (unclosed : '\x7d' ∉ template) :
      Misplaced fields operands ('\x7b' :: template) (.unclosedPlaceholder operands)
  | unknown {name template : List Char} (closed : '\x7d' ∉ name) (unknown : ∀ f ∈ fields, f.name ≠ String.ofList name) :
      Misplaced fields operands ('\x7b' :: (name ++ '\x7d' :: template)) (.unknownPlaceholder (String.ofList name))
  | copied {c : Char} {template : List Char} {err : InstructionError} (plain : c ≠ '\x7b')
      (rest : Misplaced fields operands template err) : Misplaced fields operands (c :: template) err
  | placed {name template : List Char} {err : InstructionError} (closed : '\x7d' ∉ name)
      (named : ∃ f ∈ fields, f.name = String.ofList name) (rest : Misplaced fields operands template err) :
      Misplaced fields operands ('\x7b' :: (name ++ '\x7d' :: template)) err

/-- The fragments that texts are read as. -/
structure Normal (fields : List OperandField) (parts : List Fragment) : Prop where
  literals : ∀ s, .literal s ∈ parts → s ≠ "" ∧ '\x7b' ∉ s.toList
  declared : ∀ f, .field f ∈ parts → f ∈ fields ∧ '\x7d' ∉ f.name.toList
  separate : parts.IsChain fun p q => ∀ s t, p = .literal s → q ≠ .literal t

section Scanning

variable {fields : List OperandField} {operands : String} {template : List Char} {parts : List Fragment}

/-! ## Texts that are read -/

namespace Normal

theorem nil : Normal fields [] := ⟨by simp, by simp, .nil⟩

theorem tail {p : Fragment} (h : Normal fields (p :: parts)) : Normal fields parts :=
  ⟨fun s hs => h.literals s (.tail _ hs), fun f hf => h.declared f (.tail _ hf), h.separate.tail⟩

theorem field_cons {f : OperandField} (hf : f ∈ fields) (hclosed : '\x7d' ∉ f.name.toList) (h : Normal fields parts) :
    Normal fields (.field f :: parts) := by
  refine ⟨?_, ?_, ?_⟩
  · intro s hs
    exact h.literals s (by simpa using hs)
  · intro g hg
    rcases List.mem_cons.mp hg with heq | hg
    · cases heq
      exact ⟨hf, hclosed⟩
    · exact h.declared g hg
  · refine List.isChain_cons.mpr ⟨?_, h.separate⟩
    intro q _ s t heq
    cases heq

theorem literal_cons {s : String} (hne : s ≠ "") (hplain : '\x7b' ∉ s.toList) (h : Normal fields parts)
    (hfirst : ∀ t, parts.head? ≠ some (.literal t)) : Normal fields (.literal s :: parts) := by
  refine ⟨?_, ?_, ?_⟩
  · intro t ht
    rcases List.mem_cons.mp ht with heq | ht
    · cases heq
      exact ⟨hne, hplain⟩
    · exact h.literals t ht
  · intro f hf
    exact h.declared f (by simpa using hf)
  · refine List.isChain_cons.mpr ⟨?_, h.separate⟩
    intro q hq _ t _ heq
    rw [heq] at hq
    exact hfirst t hq

/-- No literal follows the one in front. -/
theorem head?_ne {s : String} (h : Normal fields (.literal s :: parts)) : ∀ t, parts.head? ≠ some (.literal t) := by
  intro t ht
  exact (List.isChain_cons.mp h.separate).1 _ ht s t rfl rfl

/-- One more character in front. -/
theorem exists_copied {c : Char} (hc : c ≠ '\x7b') (h : Normal fields parts) :
    ∃ parts', Normal fields parts' ∧ parts'.flatMap (·.written.toList) = c :: parts.flatMap (·.written.toList) := by
  by_cases hfirst : ∀ t, parts.head? ≠ some (.literal t)
  · refine ⟨.literal (String.ofList [c]) :: parts, h.literal_cons ?_ ?_ hfirst, ?_⟩
    · simp
    · simp [Ne.symm hc]
    · simp [Fragment.written]
  · obtain ⟨t, ht⟩ := not_forall_not.mp hfirst
    obtain ⟨rest, rfl⟩ := List.head?_eq_some_iff.mp ht
    have hplain := (h.literals t List.mem_cons_self).2
    refine ⟨.literal (String.ofList (c :: t.toList)) :: rest, h.tail.literal_cons ?_ ?_ h.head?_ne, ?_⟩
    · simp
    · simp [hplain, Ne.symm hc]
    · simp [Fragment.written]

end Normal

/-- A text in which the braces are well placed consists of literals and placeholders. -/
theorem WellPlaced.exists_normal (h : WellPlaced fields template) :
    ∃ parts, Normal fields parts ∧ parts.flatMap (·.written.toList) = template := by
  induction h with
  | nil => exact ⟨[], .nil, rfl⟩
  | copied hplain _ ih =>
    obtain ⟨parts, hparts, rfl⟩ := ih
    exact hparts.exists_copied hplain
  | placed hclosed hnamed _ ih =>
    obtain ⟨f, hf, hname⟩ := hnamed
    obtain ⟨parts, hparts, rfl⟩ := ih
    refine ⟨.field f :: parts, hparts.field_cons hf (by simpa [hname] using hclosed), ?_⟩
    simp [Fragment.written, OperandField.placeholder, hname]

/-- Characters outside of placeholders are collected up to the next brace. -/
theorem scanOperands_text {cs : List Char} (hplain : '\x7b' ∉ cs) (template : List Char) :
    ∀ seen, scanOperands fields operands (.text seen) (cs ++ template) =
      scanOperands fields operands (.text (cs.reverse ++ seen)) template := by
  induction cs with
  | nil => intro seen; rfl
  | cons c cs ih =>
    intro seen
    rw [List.mem_cons, not_or] at hplain
    rw [List.cons_append, scanOperands, if_neg (Ne.symm hplain.1), ih hplain.2]
    simp

/-- An opening brace ends a literal. -/
theorem scanOperands_brace (seen : List Char) (template : List Char) :
    scanOperands fields operands (.text seen) ('\x7b' :: template) =
      (scanOperands fields operands (.name []) template).map (literal seen ++ ·) := by
  rw [scanOperands, if_pos rfl]

/-- The first closing brace ends a name, which is looked up. -/
theorem scanOperands_named {name : List Char} (hclosed : '\x7d' ∉ name) {f : OperandField}
    (hfind : fields.find? (·.name == String.ofList name) = some f) (template : List Char) :
    scanOperands fields operands (.name []) (name ++ '\x7d' :: template) =
      (scanOperands fields operands (.text []) template).map (.field f :: ·) := by
  rw [scanOperands_name hclosed, scanOperands, if_pos rfl]
  simp [hfind]

theorem scanOperands_unknown {name : List Char} (hclosed : '\x7d' ∉ name)
    (hfind : fields.find? (·.name == String.ofList name) = none) (template : List Char) :
    scanOperands fields operands (.name []) (name ++ '\x7d' :: template) =
      .error (.unknownPlaceholder (String.ofList name)) := by
  rw [scanOperands_name hclosed, scanOperands, if_pos rfl]
  simp [hfind]

theorem scanOperands_placeholder {f : OperandField} (hdistinct : (fields.map (·.name)).Nodup) (hf : f ∈ fields)
    {name : List Char} (hname : f.name = String.ofList name) (hclosed : '\x7d' ∉ name) (seen : List Char) :
    scanOperands fields operands (.text seen) ('\x7b' :: (name ++ '\x7d' :: template)) =
      (scanOperands fields operands (.text []) template).map (literal seen ++ .field f :: ·) := by
  have hfind : fields.find? (·.name == String.ofList name) = some f := by
    rw [← hname]
    exact Checked.find?_name_eq hdistinct hf
  rw [scanOperands_brace, scanOperands_named hclosed hfind]
  cases scanOperands fields operands (.text []) template <;> rfl

/-- Normal fragments are read back, behind what has been collected before. -/
theorem Normal.scanOperands_written (hdistinct : (fields.map (·.name)).Nodup) (h : Normal fields parts) :
    ∀ seen, (∀ t, seen ≠ [] → parts.head? ≠ some (.literal t)) →
      scanOperands fields operands (.text seen) (parts.flatMap (·.written.toList)) = .ok (literal seen ++ parts) := by
  induction parts with
  | nil =>
    intro seen _
    rw [List.flatMap_nil, scanOperands, List.append_nil]
  | cons p parts ih =>
    intro seen hseen
    cases p with
    | literal s =>
      have hnone : seen = [] := by
        by_contra hne
        exact hseen s hne rfl
      obtain ⟨hne, hplain⟩ := h.literals s List.mem_cons_self
      have hcollected : literal s.toList.reverse = [.literal s] := by simp [literal, hne]
      rw [hnone, List.flatMap_cons, Fragment.written, scanOperands_text hplain, List.append_nil,
        ih h.tail _ fun t _ => h.head?_ne t, hcollected]
      rfl
    | field f =>
      obtain ⟨hf, hclosed⟩ := h.declared f List.mem_cons_self
      have hwritten : (Fragment.field f :: parts).flatMap (·.written.toList) =
          '\x7b' :: (f.name.toList ++ '\x7d' :: parts.flatMap (·.written.toList)) := by
        simp [Fragment.written, OperandField.placeholder]
      rw [hwritten, scanOperands_placeholder hdistinct hf String.ofList_toList.symm hclosed, ih h.tail [] (by simp)]
      rfl

/-! ## Texts that are refused -/

/-- One or the other brace decides about a text. -/
theorem wellPlaced_or_misplaced (fields : List OperandField) (operands : String) (template : List Char) :
    WellPlaced fields template ∨ ∃ err, Misplaced fields operands template err := by
  -- A placeholder is skipped as a whole, so the induction is on the length.
  induction hn : template.length using Nat.strongRecOn generalizing template with
  | _ n ih =>
    cases template with
    | nil => exact .inl .nil
    | cons c rest =>
      by_cases hc : c = '\x7b'
      · subst hc
        by_cases hopen : '\x7d' ∉ rest
        · exact .inr ⟨_, .unclosed hopen⟩
        · obtain ⟨name, after, rfl, hclosed⟩ := List.eq_append_cons_of_mem (not_not.mp hopen)
          have hshorter : after.length < n := by
            simp only [List.length_cons, List.length_append] at hn
            omega
          by_cases hnamed : ∃ f ∈ fields, f.name = String.ofList name
          · rcases ih _ hshorter after rfl with hwell | ⟨err, hmis⟩
            · exact .inl (.placed hclosed hnamed hwell)
            · exact .inr ⟨err, .placed hclosed hnamed hmis⟩
          · refine .inr ⟨_, .unknown hclosed ?_⟩
            intro f hf hname
            exact hnamed ⟨f, hf, hname⟩
      · have hshorter : rest.length < n := by
          simp only [List.length_cons] at hn
          omega
        rcases ih _ hshorter rest rfl with hwell | ⟨err, hmis⟩
        · exact .inl (.copied hc hwell)
        · exact .inr ⟨err, .copied hc hmis⟩

theorem scanOperands_unclosed (h : '\x7d' ∉ template) :
    ∀ seen, scanOperands fields operands (.name seen) template = .error (.unclosedPlaceholder operands) := by
  induction template with
  | nil => intro seen; rfl
  | cons c template ih =>
    intro seen
    rw [List.mem_cons, not_or] at h
    rw [scanOperands, if_neg (Ne.symm h.1), ih h.2]

theorem Misplaced.scanOperands_eq (hdistinct : (fields.map (·.name)).Nodup) {err : InstructionError}
    (h : Misplaced fields operands template err) :
    ∀ seen, scanOperands fields operands (.text seen) template = .error err := by
  induction h with
  | unclosed hopen =>
    intro seen
    rw [scanOperands_brace, scanOperands_unclosed hopen]
    rfl
  | unknown hclosed hunknown =>
    intro seen
    have hnone : fields.find? (·.name == String.ofList _) = none :=
      List.find?_eq_none.mpr fun f hf => by simpa using hunknown f hf
    rw [scanOperands_brace, scanOperands_unknown hclosed hnone]
    rfl
  | copied hplain _ ih =>
    intro seen
    rw [scanOperands, if_neg hplain, ih]
  | placed hclosed hnamed _ ih =>
    intro seen
    obtain ⟨f, hf, hname⟩ := hnamed
    rw [scanOperands_placeholder hdistinct hf hname hclosed, ih]
    rfl

/-! ## Reading -/

theorem written_eq_iff : String.join (parts.map Fragment.written) = operands ↔
    parts.flatMap (·.written.toList) = operands.toList := by
  rw [← String.toList_inj, String.toList_join, List.flatMap_map]

theorem Normal.readOperands_eq (hdistinct : (fields.map (·.name)).Nodup) (h : Normal fields parts)
    (hwritten : String.join (parts.map Fragment.written) = operands) : readOperands fields operands = .ok parts := by
  rw [readOperands, ← written_eq_iff.mp hwritten]
  exact h.scanOperands_written hdistinct [] fun _ hne => absurd rfl hne

theorem WellPlaced.exists_read (hdistinct : (fields.map (·.name)).Nodup) (h : WellPlaced fields operands.toList) :
    ∃ parts, readOperands fields operands = .ok parts ∧ Normal fields parts ∧
      String.join (parts.map Fragment.written) = operands := by
  obtain ⟨parts, hnormal, hwritten⟩ := h.exists_normal
  have hjoined := written_eq_iff.mpr hwritten
  exact ⟨parts, hnormal.readOperands_eq hdistinct hjoined, hnormal, hjoined⟩

/-- What is read is well placed, and what is refused is misplaced. -/
theorem readOperands_cases (hdistinct : (fields.map (·.name)).Nodup) (operands : String) :
    (∃ parts, readOperands fields operands = .ok parts ∧ WellPlaced fields operands.toList) ∨
      ∃ err, readOperands fields operands = .error err ∧ Misplaced fields operands operands.toList err := by
  rcases wellPlaced_or_misplaced fields operands operands.toList with hwell | ⟨err, hmis⟩
  · obtain ⟨parts, hread, -⟩ := hwell.exists_read hdistinct
    exact .inl ⟨parts, hread, hwell⟩
  · exact .inr ⟨err, hmis.scanOperands_eq hdistinct [], hmis⟩

theorem wellPlaced_of_ok (hdistinct : (fields.map (·.name)).Nodup) (h : readOperands fields operands = .ok parts) :
    WellPlaced fields operands.toList := by
  rcases readOperands_cases hdistinct operands with ⟨parts, -, hwell⟩ | ⟨err, hread, -⟩
  · exact hwell
  · rw [h] at hread
    cases hread

theorem misplaced_of_error (hdistinct : (fields.map (·.name)).Nodup) {err : InstructionError}
    (h : readOperands fields operands = .error err) : Misplaced fields operands operands.toList err := by
  rcases readOperands_cases hdistinct operands with ⟨parts, hread, -⟩ | ⟨err', hread, hmis⟩
  · rw [h] at hread
    cases hread
  · rw [h] at hread
    cases hread
    exact hmis

theorem readOperands_ok_iff (hdistinct : (fields.map (·.name)).Nodup) :
    readOperands fields operands = .ok parts ↔
      Normal fields parts ∧ String.join (parts.map Fragment.written) = operands := by
  constructor
  · intro h
    obtain ⟨parts', hread, hnormal⟩ := (wellPlaced_of_ok hdistinct h).exists_read hdistinct
    rw [h] at hread
    cases hread
    exact hnormal
  · intro h
    exact h.1.readOperands_eq hdistinct h.2

/-! ## Reading in passes -/

/-- What a pass over the rest of a text comes to: an end, or fragments and what is left behind them. -/
inductive Pass where
  | ends (outcome : Except InstructionError (List Fragment))
  | goesOn (pushed : List Fragment) (rest : List Char)
  deriving DecidableEq

/-- Without an opening brace the rest is a literal, if there is any. With one, what comes before it is; and behind
    it the name of a field comes before the first closing brace. -/
def pass (fields : List OperandField) (operands : String) (rest : List Char) : Pass :=
  match rest.span (· != '\x7b') with
  | (text, []) => .ends (.ok (literal text.reverse))
  | (text, _ :: behind) =>
    match behind.span (· != '\x7d') with
    | (_, []) => .ends (.error (.unclosedPlaceholder operands))
    | (name, _ :: after) =>
      match fields.find? (·.name == String.ofList name) with
      | none => .ends (.error (.unknownPlaceholder (String.ofList name)))
      | some f => .goesOn (literal text.reverse ++ [.field f]) after

/-- So many passes go on, each behind the fragments of those before and over what they left, until one ends; and
    what comes of them. -/
inductive Passes (fields : List OperandField) (operands : String) :
    List Fragment → List Char → Nat → Except InstructionError (List Fragment) → Prop where
  | ends {parts : List Fragment} {rest : List Char} {outcome : Except InstructionError (List Fragment)}
      (last : pass fields operands rest = .ends outcome) : Passes fields operands parts rest 0 (outcome.map (parts ++ ·))
  | goesOn {parts pushed : List Fragment} {rest after : List Char} {count : Nat}
      {outcome : Except InstructionError (List Fragment)} (next : pass fields operands rest = .goesOn pushed after)
      (others : Passes fields operands (parts ++ pushed) after count outcome) :
      Passes fields operands parts rest (count + 1) outcome

/-- What a pass comes to if what is left is read in this way. -/
def Pass.followedBy (read : List Char → Except InstructionError (List Fragment)) :
    Pass → Except InstructionError (List Fragment)
  | .ends outcome => outcome
  | .goesOn pushed rest => (read rest).map (pushed ++ ·)

/-- A text has no opening brace, none that is closed, or a name behind the first. -/
theorem cut_cases (rest : List Char) :
    '\x7b' ∉ rest ∨
      (∃ text behind, rest = text ++ '\x7b' :: behind ∧ '\x7b' ∉ text ∧ '\x7d' ∉ behind) ∨
      ∃ text name after, rest = text ++ '\x7b' :: (name ++ '\x7d' :: after) ∧ '\x7b' ∉ text ∧ '\x7d' ∉ name := by
  by_cases hopen : '\x7b' ∈ rest
  · obtain ⟨text, behind, rfl, htext⟩ := List.eq_append_cons_of_mem hopen
    by_cases hclosed : '\x7d' ∈ behind
    · obtain ⟨name, after, rfl, hname⟩ := List.eq_append_cons_of_mem hclosed
      exact .inr (.inr ⟨text, name, after, rfl, htext, hname⟩)
    · exact .inr (.inl ⟨text, behind, rfl, htext, hclosed⟩)
  · exact .inl hopen

theorem pass_plain {rest : List Char} (h : '\x7b' ∉ rest) :
    pass fields operands rest = .ends (.ok (literal rest.reverse)) := by
  rw [pass, span_of_not_mem h]

theorem pass_unclosed {text behind : List Char} (htext : '\x7b' ∉ text) (hopen : '\x7d' ∉ behind) :
    pass fields operands (text ++ '\x7b' :: behind) = .ends (.error (.unclosedPlaceholder operands)) := by
  rw [pass, span_append htext]
  simp only [span_of_not_mem hopen]

theorem pass_unknown {text name after : List Char} (htext : '\x7b' ∉ text) (hname : '\x7d' ∉ name)
    (hfind : fields.find? (·.name == String.ofList name) = none) :
    pass fields operands (text ++ '\x7b' :: (name ++ '\x7d' :: after)) =
      .ends (.error (.unknownPlaceholder (String.ofList name))) := by
  rw [pass, span_append htext]
  simp only [span_append hname, hfind]

theorem pass_named {text name after : List Char} (htext : '\x7b' ∉ text) (hname : '\x7d' ∉ name) {f : OperandField}
    (hfind : fields.find? (·.name == String.ofList name) = some f) :
    pass fields operands (text ++ '\x7b' :: (name ++ '\x7d' :: after)) =
      .goesOn (literal text.reverse ++ [.field f]) after := by
  rw [pass, span_append htext]
  simp only [span_append hname, hfind]

/-- Reading the characters is one pass, and reading what it leaves. -/
theorem scanOperands_pass (rest : List Char) :
    scanOperands fields operands (.text []) rest =
      (pass fields operands rest).followedBy (scanOperands fields operands (.text [])) := by
  rcases cut_cases rest with hplain | ⟨text, behind, rfl, htext, hopen⟩ | ⟨text, name, after, rfl, htext, hname⟩
  · have hscan := @scanOperands_text fields operands rest hplain [] []
    rw [List.append_nil, List.append_nil] at hscan
    rw [hscan, pass_plain hplain]
    rfl
  · rw [scanOperands_text htext, List.append_nil, scanOperands_brace, scanOperands_unclosed hopen,
      pass_unclosed htext hopen]
    rfl
  · rw [scanOperands_text htext, List.append_nil, scanOperands_brace]
    cases hfind : fields.find? (·.name == String.ofList name) with
    | none =>
      rw [scanOperands_unknown hname hfind, pass_unknown htext hname hfind]
      rfl
    | some f =>
      rw [scanOperands_named hname hfind, pass_named htext hname hfind, Pass.followedBy]
      cases scanOperands fields operands (.text []) after <;> simp [Except.map]

/-- A pass that goes on leaves less than there was. -/
theorem length_of_goesOn {rest after : List Char} {pushed : List Fragment}
    (h : pass fields operands rest = .goesOn pushed after) : after.length < rest.length := by
  rcases cut_cases rest with hplain | ⟨text, behind, rfl, htext, hopen⟩ | ⟨text, name, left, rfl, htext, hname⟩
  · rw [pass_plain hplain] at h
    cases h
  · rw [pass_unclosed htext hopen] at h
    cases h
  · cases hfind : fields.find? (·.name == String.ofList name) with
    | none =>
      rw [pass_unknown htext hname hfind] at h
      cases h
    | some f =>
      rw [pass_named htext hname hfind] at h
      cases h
      simp only [List.length_append, List.length_cons]
      omega

/-- The loop ends, with what reading the characters comes to. -/
theorem exists_passes (fields : List OperandField) (operands : String) (parts : List Fragment) (rest : List Char) :
    ∃ count ≤ rest.length,
      Passes fields operands parts rest count ((scanOperands fields operands (.text []) rest).map (parts ++ ·)) := by
  induction hn : rest.length using Nat.strongRecOn generalizing parts rest with
  | _ n ih =>
    rw [scanOperands_pass]
    cases hpass : pass fields operands rest with
    | ends outcome => exact ⟨0, Nat.zero_le n, .ends hpass⟩
    | goesOn pushed after =>
      have hless := length_of_goesOn hpass
      obtain ⟨count, hcount, hothers⟩ := ih after.length (by omega) (parts ++ pushed) after rfl
      refine ⟨count + 1, by omega, .goesOn hpass ?_⟩
      have hmap : ((scanOperands fields operands (.text []) after).map (pushed ++ ·)).map (parts ++ ·) =
          (scanOperands fields operands (.text []) after).map (parts ++ pushed ++ ·) := by
        cases scanOperands fields operands (.text []) after <;> simp [Except.map]
      rw [Pass.followedBy, hmap]
      exact hothers

/-- It ends in one way. -/
theorem Passes.unique {rest : List Char} {count : Nat} {outcome : Except InstructionError (List Fragment)}
    (h : Passes fields operands parts rest count outcome) :
    ∀ {count' : Nat} {outcome' : Except InstructionError (List Fragment)},
      Passes fields operands parts rest count' outcome' → count' = count ∧ outcome' = outcome := by
  induction h with
  | ends hlast =>
    intro count' outcome' hother
    cases hother with
    | ends hlast' =>
      cases hlast.symm.trans hlast'
      exact ⟨rfl, rfl⟩
    | goesOn hnext' => cases hlast.symm.trans hnext'
  | goesOn hnext _ ih =>
    intro count' outcome' hother
    cases hother with
    | ends hlast' => cases hnext.symm.trans hlast'
    | goesOn hnext' hothers =>
      cases hnext.symm.trans hnext'
      obtain ⟨hcount, houtcome⟩ := ih hothers
      exact ⟨congrArg (· + 1) hcount, houtcome⟩

theorem readOperands_passes (fields : List OperandField) (operands : String) :
    ∃ count ≤ operands.toList.length,
      Passes fields operands [] operands.toList count (readOperands fields operands) := by
  have hpasses := exists_passes fields operands [] operands.toList
  have hmap : (scanOperands fields operands (.text []) operands.toList).map ([] ++ ·) =
      readOperands fields operands := by
    unfold readOperands
    cases scanOperands fields operands (.text []) operands.toList <;> rfl
  rwa [hmap] at hpasses

end Scanning

/-- The passes over an operand text end, in one way, and that is what is read. It is read exactly if its braces are
    well placed, and as the only normal fragments that are written like it. Otherwise it is refused, for the first
    brace that is not well placed. -/
theorem readOperands_faithful {fields : List OperandField} (distinct : (fields.map (·.name)).Nodup)
    (operands : String) :
    (∃ count ≤ operands.toList.length,
      Passes fields operands [] operands.toList count (readOperands fields operands) ∧
      ∀ count' outcome, Passes fields operands [] operands.toList count' outcome →
        count' = count ∧ outcome = readOperands fields operands) ∧
      ((∃ parts, readOperands fields operands = .ok parts) ↔ WellPlaced fields operands.toList) ∧
      (∀ err, readOperands fields operands = .error err ↔ Misplaced fields operands operands.toList err) ∧
      ∀ parts, readOperands fields operands = .ok parts ↔
        Normal fields parts ∧ String.join (parts.map Fragment.written) = operands := by
  refine ⟨?_, ⟨?_, ?_⟩, fun err => ⟨misplaced_of_error distinct, ?_⟩, fun parts => readOperands_ok_iff distinct⟩
  · obtain ⟨count, hcount, hpasses⟩ := readOperands_passes fields operands
    exact ⟨count, hcount, hpasses, fun count' outcome => hpasses.unique⟩
  · intro h
    obtain ⟨parts, hread⟩ := h
    exact wellPlaced_of_ok distinct hread
  · intro h
    obtain ⟨parts, hread, -⟩ := h.exists_read distinct
    exact ⟨parts, hread⟩
  · intro h
    exact h.scanOperands_eq distinct []

namespace Sample

def plainField (name : String) : OperandField := ⟨name, 0, 1, .immediate false 1⟩

/-- One name is empty and one has a brace in it. -/
def oddFields : List OperandField := [plainField "a", plainField "", plainField "\x7bé"]

end Sample

/-- A brace that closes nothing is copied, placeholders may follow each other, and the first closing brace ends one:
    there are three passes, and what is left is a literal. -/
theorem readOperands_faithful_odd :
    let operands := "→\x7d\x7ba\x7d\x7b\x7d\x7b\x7bé\x7d\x7d"
    let parts : List Fragment := [.literal "→\x7d", .field (Sample.plainField "a"), .field (Sample.plainField ""),
      .field (Sample.plainField "\x7bé"), .literal "\x7d"]
    (Sample.oddFields.map (·.name)).Nodup ∧ readOperands Sample.oddFields operands = .ok parts ∧
      Passes Sample.oddFields operands [] operands.toList 3 (.ok parts) ∧
      WellPlaced Sample.oddFields operands.toList ∧ Normal Sample.oddFields parts := by
  intro operands parts
  have distinct : (Sample.oddFields.map (·.name)).Nodup := by decide
  have read : readOperands Sample.oddFields operands = .ok parts := by decide +kernel
  have first : pass Sample.oddFields operands operands.toList =
      .goesOn [.literal "→\x7d", .field (Sample.plainField "a")] "\x7b\x7d\x7b\x7bé\x7d\x7d".toList := by decide +kernel
  have second : pass Sample.oddFields operands "\x7b\x7d\x7b\x7bé\x7d\x7d".toList =
      .goesOn [.field (Sample.plainField "")] "\x7b\x7bé\x7d\x7d".toList := by decide +kernel
  have third : pass Sample.oddFields operands "\x7b\x7bé\x7d\x7d".toList =
      .goesOn [.field (Sample.plainField "\x7bé")] "\x7d".toList := by decide +kernel
  have last : pass Sample.oddFields operands "\x7d".toList = .ends (.ok [.literal "\x7d"]) := by decide +kernel
  obtain ⟨-, hplaced, -, hnormal⟩ := readOperands_faithful distinct operands
  exact ⟨distinct, read, .goesOn first (.goesOn second (.goesOn third (.ends last))), hplaced.mp ⟨parts, read⟩,
    ((hnormal parts).mp read).1⟩

/-! ## Descriptions -/

/-- In an accepted language each instruction has the normal fragments that its operand text consists of. -/
theorem DeclaredBy.operands_written {root el : Element} {l : Language} (accepted : Language.ofElement root = .ok l)
    {e : Encoding} (he : e ∈ l.encodings) (h : DeclaredBy root l e el) :
    Normal e.fields e.operands ∧
      String.join (e.operands.map Fragment.written) = (el.attribute? "operands").getD "" :=
  have hdistinct := ((ofElement_wellFormed accepted).encodings _ he).fields.distinct
  (readOperands_ok_iff hdistinct).mp (readEncoding_parts h.read).2.2.1

end Lifter
