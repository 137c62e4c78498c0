/-
  Lifter.Proofs.BothForms — the structured form and the form with one value a line
  describe the same listing.

  The two are written on their own: in one the members of an object stand in an order
  of their own and the entries in an array for each kind, in the other the members stand
  in alphabetical order and the entries in the order of the listing. As values their
  objects are the same from the varnodes up (`same_varnode`, `same_op`,
  `describes_instruction`), and each array goes through its kind of entries in order, so
  that the arrays together have every entry once (`forms_agree`).
-/

import Lifter.Listing.Structured
import Lifter.Proofs.Framing
import Lifter.Proofs.JsonLayout

namespace Lifter

namespace Json

/-! ## Members -/

def members : Json → List (String × Json)
  | .object ms => ms
  | _ => []

/-- The value of the first member of this name. -/
def member? (key : String) (j : Json) : Option Json := j.members.lookup key

/-- The object without the members of these names. -/
def without (keys : List String) : Json → Json
  | .object ms => .object (ms.filter fun m => m.1 ∉ keys)
  | j => j

section Members

variable {keys : List String} {key : String} {ms ns : List (String × Json)} {j : Json}

@[simp] theorem member?_object : member? key (.object ms) = ms.lookup key := rfl

@[simp] theorem without_object : without keys (.object ms) = .object (ms.filter fun m => m.1 ∉ keys) := rfl

/-! ## Equality up to the order of members -/

mutual

/-- The values are equal up to the order of members, of which an object has no two of one name. -/
def Same : Json → Json → Prop
  | .array js, k => ∃ ks, k = .array ks ∧ SameItems js ks
  | .object ms, k => ∃ ns, k = .object ns ∧ ms.length = ns.length ∧ (ms.map (·.1)).Nodup ∧ SameMembers ms ns
  | .null, k => k = .null
  | .number n, k => k = .number n
  | .text s, k => k = .text s

def SameItems : List Json → List Json → Prop
  | [], ks => ks = []
  | j :: js, ks => ∃ k ks', ks = k :: ks' ∧ Same j k ∧ SameItems js ks'

/-- Every member has the same value in the other object. -/
def SameMembers : List (String × Json) → List (String × Json) → Prop
  | [], _ => True
  | (key, j) :: ms, ns => (∃ k, ns.lookup key = some k ∧ Same j k) ∧ SameMembers ms ns

end

@[simp] theorem same_null : Same .null j ↔ j = .null := Iff.rfl

@[simp] theorem same_number {m n : Nat} : Same (.number m) (.number n) ↔ m = n := by
  simp [Same, eq_comm]

@[simp] theorem same_text {s t : String} : Same (.text s) (.text t) ↔ s = t := by
  simp [Same, eq_comm]

@[simp] theorem same_array {js ks : List Json} : Same (.array js) (.array ks) ↔ SameItems js ks := by
  simp [Same]

@[simp] theorem same_object :
    Same (.object ms) (.object ns) ↔ ms.length = ns.length ∧ (ms.map (·.1)).Nodup ∧ SameMembers ms ns := by
  simp [Same]

@[simp] theorem sameMembers_nil : SameMembers [] ns := trivial

@[simp] theorem sameMembers_cons :
    SameMembers ((key, j) :: ms) ns ↔ (∃ k, ns.lookup key = some k ∧ Same j k) ∧ SameMembers ms ns := Iff.rfl

end Members

theorem sameItems_map {α : Type} {f g : α → Json} (h : ∀ x, Same (f x) (g x)) (xs : List α) :
    SameItems (xs.map f) (xs.map g) := by
  induction xs with
  | nil => rfl
  | cons x xs ih => exact ⟨g x, xs.map g, rfl, h x, ih⟩

end Json

/-! ## Entries -/

/-- A failure has no micro-operations. -/
def ListingEntry.ops : ListingEntry → List OpRecord
  | .decoded insn => insn.ops
  | .failed _ _ => []

namespace Listing

open Json

theorem same_varnode (v : VarnodeRecord) : Same (varnodeJson v) (varnodeLine v) := by
  simp [varnodeJson, varnodeLine, List.lookup_cons]

theorem same_op (op : OpRecord) : Same (opJson op) (opLine op) := by
  obtain ⟨address, opcode, output, inputs⟩ := op
  have hinputs := sameItems_map same_varnode inputs
  cases output with
  | none => simp [opJson, opLine, List.lookup_cons, hinputs]
  | some v => simp [opJson, opLine, List.lookup_cons, hinputs, same_varnode]

/-- The value is what the entry's line says, up to the order of members and without the members of a line alone; and
    micro-operations are left out of it exactly if there are none. -/
structure Describes (language : String) (entry : ListingEntry) (j : Json) : Prop where
  same : j.Same
    ((entryLine language entry).without (["type", "language"] ++ if entry.ops = [] then ["pcode"] else []))
  ops : j.member? "pcode" = none ↔ entry.ops = []

theorem describes_instruction (language : String) (insn : DecodedInstruction) :
    Describes language (.decoded insn) (instructionJson insn) := by
  have hops := sameItems_map same_op insn.ops
  by_cases hempty : insn.ops = []
  · constructor
    · simp [instructionJson, entryLine, ListingEntry.ops, List.lookup_cons, hempty]
    · simp [instructionJson, ListingEntry.ops, List.lookup_cons, hempty]
  · constructor
    · simp [instructionJson, entryLine, ListingEntry.ops, List.lookup_cons, hempty, hops]
    · simp [instructionJson, ListingEntry.ops, List.lookup_cons, hempty]

theorem describes_failure (language : String) (address : UInt64) (error : String) :
    Describes language (.failed address error) (failureJson address error) := by
  constructor
  · simp [failureJson, entryLine, ListingEntry.ops, List.lookup_cons]
  · simp [failureJson, ListingEntry.ops, List.lookup_cons]

/-! ## Arrays -/

theorem describes_instructions (language : String) (entries : List ListingEntry) :
    List.Forall₂ (Describes language) (entries.filter (·.isDecoded)) (instructions entries) := by
  induction entries with
  | nil => exact .nil
  | cons entry entries ih =>
    cases entry with
    | decoded insn => exact .cons (describes_instruction language insn) ih
    | failed address error => exact ih

theorem describes_failures (language : String) (entries : List ListingEntry) :
    List.Forall₂ (Describes language) (entries.filter (!·.isDecoded)) (failures entries) := by
  induction entries with
  | nil => exact .nil
  | cons entry entries ih =>
    cases entry with
    | decoded insn => exact ih
    | failed address error => exact .cons (describes_failure language address error) ih

/-! ## Texts -/

theorem structured_eq_iff {l : Listing} {j : Json} : j.pretty = l.structured.toList ↔ j = l.json := by
  rw [structured, String.toList_ofList]
  exact ⟨pretty_inj, fun h => by rw [h]⟩

theorem lines_values_iff {l : Listing} {js : List Json} :
    js.map compact ++ [[]] = l.lines.toList.splitOn '\n' ↔ js = l.entries.map (entryLine l.language) := by
  rw [splitOn_lines, List.append_left_inj, ← Function.comp_def compact, ← List.map_map]
  exact List.map_inj_right fun _ _ => compact_inj

/-- Each text says one value, or one for each line. In the one value, the array of instructions has in order an object
    for each decoded entry and the array of failures one for each other entry, and each object is that of the entry's
    line without its type and language, micro-operations being left out exactly if there are none. -/
theorem forms_agree (l : Listing) :
    (∀ j : Json, j.pretty = l.structured.toList ↔ j = l.json) ∧
    (∀ js : List Json, js.map compact ++ [[]] = l.lines.toList.splitOn '\n' ↔
      js = l.entries.map (entryLine l.language)) ∧
    ∃ decoded failed : List Json,
      l.json.member? "instructions" = some (.array decoded) ∧ l.json.member? "failures" = some (.array failed) ∧
      decoded.length = l.decodedCount ∧ decoded.length + failed.length = l.entries.length ∧
      List.Forall₂ (Describes l.language) (l.entries.filter (·.isDecoded)) decoded ∧
      List.Forall₂ (Describes l.language) (l.entries.filter (!·.isDecoded)) failed := by
  have hdecoded := describes_instructions l.language l.entries
  have hfailed := describes_failures l.language l.entries
  have hcount : (instructions l.entries).length = l.decodedCount := by
    rw [← hdecoded.length_eq, decodedCount, List.countP_eq_length_filter]
  have hall : (instructions l.entries).length + (failures l.entries).length = l.entries.length := by
    rw [← hdecoded.length_eq, ← hfailed.length_eq, ← List.countP_eq_length_filter, ← List.countP_eq_length_filter,
      List.length_eq_countP_add_countP (·.isDecoded)]
    simp
  refine ⟨fun _ => structured_eq_iff, fun _ => lines_values_iff, instructions l.entries, failures l.entries, ?_, ?_,
    hcount, hall, hdecoded, hfailed⟩
  · simp [json, List.lookup_cons]
  · simp [json, List.lookup_cons]

end Listing

end Lifter
