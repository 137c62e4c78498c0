/-
  Lifter.Proofs.Framing — what the form with one value a line says of a listing.

  Every entry is a line: the line feeds of the text part it into the compact forms of
  the entries, in order, with nothing behind the last one (`splitOn_lines`). A line says
  all of its entry but the space and address in its line of assembly text, and names the
  processor. So two listings have one text exactly if they have as many entries, each
  like the other and of the same processor (`lines_framed`).
-/

import Lifter.Listing.Lines
import Lifter.Proofs.JsonText
import Lifter.Proofs.Results
import Mathlib.Data.List.Nodup

namespace Lifter

open Text

/-! ## Entries -/

/-- What a line says of two entries is the same. -/
inductive ListingEntry.Alike : ListingEntry → ListingEntry → Prop
  | decoded {insn other : DecodedInstruction} (address : insn.address = other.address)
      (length : insn.length = other.length) (mnemonic : insn.line.mnemonic = other.line.mnemonic)
      (operands : insn.line.operands = other.line.operands) (bytes : insn.bytes = other.bytes)
      (ops : insn.ops = other.ops) : Alike (.decoded insn) (.decoded other)
  | failed (address : UInt64) (error : String) : Alike (.failed address error) (.failed address error)

theorem Opcode.name_inj {op op' : Opcode} (h : op.name = op'.name) : op = op' := by
  have hnames : (all.map name).Nodup := by decide +kernel
  exact List.inj_on_of_nodup_map hnames (mem_all op) (mem_all op') h

namespace Listing

theorem varnodeLine_inj {v w : VarnodeRecord} (h : varnodeLine v = varnodeLine w) : v = w := by
  obtain ⟨space, offset, size⟩ := v
  obtain ⟨space', offset', size'⟩ := w
  simp only [varnodeLine, Json.object.injEq, List.cons.injEq, Prod.mk.injEq, Json.number.injEq, Json.text.injEq,
    true_and, and_true, UInt64.toNat_inj] at h
  obtain ⟨rfl, rfl, rfl⟩ := h
  rfl

theorem opLine_inj {op op' : OpRecord} (h : opLine op = opLine op') : op = op' := by
  obtain ⟨address, opcode, output, inputs⟩ := op
  obtain ⟨address', opcode', output', inputs'⟩ := op'
  simp only [opLine, Json.object.injEq, List.cons.injEq, Prod.mk.injEq, Json.number.injEq, Json.array.injEq,
    Json.text.injEq, true_and, and_true, UInt64.toNat_inj] at h
  obtain ⟨rfl, hinputs, hopcode, houtput⟩ := h
  obtain rfl := (List.map_inj_right fun _ _ => varnodeLine_inj).mp hinputs
  obtain rfl := Opcode.name_inj hopcode
  have hout : output = output' := by
    cases output with
    | none =>
      cases output' with
      | none => rfl
      | some w => cases houtput
    | some v =>
      cases output' with
      | none => cases houtput
      | some w => exact congrArg some (varnodeLine_inj houtput)
  rw [hout]

/-- A line is that of one processor, and of entries that are alike. -/
theorem entryLine_eq_iff {language language' : String} {entry other : ListingEntry} :
    entryLine language entry = entryLine language' other ↔ language = language' ∧ entry.Alike other := by
  constructor
  · intro h
    cases entry with
    | decoded insn =>
      cases other with
      | decoded insn' =>
        simp only [entryLine, Json.object.injEq, List.cons.injEq, Prod.mk.injEq, Json.number.injEq, Json.array.injEq,
          Json.text.injEq, true_and, and_true] at h
        obtain ⟨haddress, hbytes, hlanguage, hlength, hmnemonic, hoperands, hops⟩ := h
        exact ⟨hlanguage, .decoded (hex_inj haddress) hlength hmnemonic hoperands (hexBytes_inj hbytes)
          ((List.map_inj_right fun _ _ => opLine_inj).mp hops)⟩
      | failed address error => simp [entryLine] at h
    | failed address error =>
      cases other with
      | decoded insn => simp [entryLine] at h
      | failed address' error' =>
        simp only [entryLine, Json.object.injEq, List.cons.injEq, Prod.mk.injEq, Json.text.injEq, true_and,
          and_true] at h
        obtain ⟨haddress, rfl, rfl⟩ := h
        obtain rfl := hex_inj haddress
        exact ⟨rfl, .failed address error⟩
  · rintro ⟨rfl, hlike⟩
    cases hlike with
    | decoded address length mnemonic operands bytes ops =>
      simp only [entryLine, address, length, mnemonic, operands, bytes, ops]
    | failed address error => rfl

/-! ## Lines -/

/-- Lines that are ended, and not only parted, leave nothing behind the last one. -/
theorem splitOn_ended {α : Type} {f : α → List Char} {xs : List α} (h : ∀ x ∈ xs, '\n' ∉ f x) :
    (xs.flatMap fun x => f x ++ ['\n']).splitOn '\n' = xs.map f ++ [[]] := by
  induction xs with
  | nil => rfl
  | cons x xs ih =>
    rw [List.flatMap_cons, List.append_assoc, List.singleton_append,
      List.splitOn_append_cons_self_of_not_mem (h x List.mem_cons_self),
      ih fun y hy => h y (List.mem_cons_of_mem _ hy)]
    rfl

theorem newline_not_mem_compact (j : Json) : '\n' ∉ j.compact := fun hmem =>
  absurd (j.printable_compact '\n' hmem) (by decide)

theorem splitOn_lines (l : Listing) :
    l.lines.toList.splitOn '\n' = l.entries.map (fun entry => (entryLine l.language entry).compact) ++ [[]] := by
  rw [lines, String.toList_ofList]
  exact splitOn_ended fun entry _ => newline_not_mem_compact _

/-- The text is made of its lines. -/
theorem lines_eq_iff {l other : Listing} :
    l.lines = other.lines ↔ l.entries.map (entryLine l.language) = other.entries.map (entryLine other.language) := by
  have hlines : ∀ l : Listing, l.lines =
      String.ofList ((l.entries.map (entryLine l.language)).flatMap fun line => line.compact ++ ['\n']) :=
    fun l => by rw [lines, List.flatMap_map]
  constructor
  · intro h
    have hsplit := splitOn_lines l
    rw [h, splitOn_lines other, List.append_left_inj, ← Function.comp_def Json.compact, ← List.map_map,
      ← Function.comp_def Json.compact, ← List.map_map] at hsplit
    exact ((List.map_inj_right fun _ _ => Json.compact_inj).mp hsplit).symm
  · intro h
    rw [hlines l, hlines other, h]

/-- The text has a line for each entry, in order, each ended by a line feed and with none in it; and two listings
    have the same text exactly if they have as many entries, each like the other and of the same processor. -/
theorem lines_framed (l : Listing) :
    l.lines.toList.splitOn '\n' = l.entries.map (fun entry => (entryLine l.language entry).compact) ++ [[]] ∧
    (∀ entry ∈ l.entries, '\n' ∉ (entryLine l.language entry).compact) ∧
    ∀ other : Listing, l.lines = other.lines ↔
      List.Forall₂ (fun entry entry' => l.language = other.language ∧ entry.Alike entry') l.entries other.entries := by
  refine ⟨splitOn_lines l, fun entry _ => newline_not_mem_compact _, fun other => ?_⟩
  rw [lines_eq_iff, ← List.forall₂_eq_eq_eq, List.forall₂_map_left_iff, List.forall₂_map_right_iff]
  simp only [entryLine_eq_iff]

/-- A failure whose text has a line feed, a quote and a backslash. -/
def quotedFailure : ListingEntry := .failed 0x1f "é\n\"\\"

/-- It alone, from the code space of this name. -/
def quotedListing (space : String) : Listing := ⟨"toy", space, [quotedFailure]⟩

/-- It is one line, and the same one in every code space. -/
theorem lines_framed_quoted :
    quotedFailure ∈ (quotedListing "ram").entries ∧
      (quotedListing "ram").lines =
        "\x7b\"address\":\"0x1f\",\"error\":\"é\\n\\\"\\\\\",\"language\":\"toy\",\"type\":\"failure\"\x7d\n" ∧
      '\n' ∉ (entryLine "toy" quotedFailure).compact ∧ (quotedListing "ram").lines = (quotedListing "rom").lines :=
  ⟨List.mem_singleton.mpr rfl, by decide,
    (lines_framed (quotedListing "ram")).2.1 quotedFailure (List.mem_singleton.mpr rfl),
    ((lines_framed (quotedListing "ram")).2.2 (quotedListing "rom")).mpr (.cons ⟨rfl, .failed _ _⟩ .nil)⟩

end Listing

end Lifter
