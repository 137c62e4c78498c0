/-
  Lifter.Proofs.WithOps — one listing with micro-operations and one without.

  If micro-operations are wanted, an instruction has to be decoded as well as
  disassembled, and is listed as a failure if that is not possible. Both listings are
  alike, apart from the operations, up to the first such instruction (`PartsAt`): its
  operations need a register that its text does not show, and there is none for the
  value of that field. Behind it the two go on from different addresses. Where the
  registers of all operations are shown, the listings never part.
-/

import Lifter.Proofs.Sweep

namespace Lifter

open Specification

/-- The entry as it is listed without micro-operations. -/
def ListingEntry.withoutOps : ListingEntry → ListingEntry
  | .decoded insn => .decoded { insn with ops := [] }
  | .failed address error => .failed address error

/-- Every register in the micro-operations is also in the text. -/
def Encoding.ShowsRegisters (e : Encoding) : Prop :=
  ∀ f ∈ e.opFields, ∀ table, f.kind = .register table → f ∈ e.printedFields

section Listing

variable {σ : Type} [ByteSource σ] {e : Engine σ}

/-- The instruction can be disassembled, but not decoded: a register that only its operations need is
    reserved. -/
structure PartsAt (e : Engine σ) (insn : DecodedInstruction) (err : DecodeError) : Prop where
  shown : IsEntry e false insn
  fails : (e.decode insn.address Sink.ops .empty).result = .error err
  reserved : ∃ i, (e.fetch insn.address).result = .ok i ∧
    ∃ f ∈ i.encoding.opFields, f ∉ i.encoding.printedFields ∧ i.SelectsNothing f ∧ err = i.reservedError f

namespace IsEntry

variable {insn : DecodedInstruction}

/-- An entry with operations is one without, but for them. -/
theorem withoutOps (h : IsEntry e true insn) : IsEntry e false { insn with ops := [] } :=
  ⟨h.length, h.line, h.bytes, rfl⟩

/-- Where there is an entry without operations, only decoding can fail, and only in this way. -/
theorem partsAt (h : IsEntry e false insn) {err : DecodeError} (hfail : FailsAt e true insn.address err) :
    PartsAt e insn err := by
  rcases hfail with hfail | ⟨-, -, hfail⟩
  · cases h.length.symm.trans hfail
  · rcases e.disassemble_cases insn.address with ⟨err', herr, -⟩ | ⟨i, text, hfound, -⟩
    · cases h.length.symm.trans herr
    · have hshown := Engine.seenRun_explained hfound (Instruction.assembly_resolves e.language i)
        (Sink.recording_neverBreaks AssemblyLine.record) .empty
      have hlifted := Engine.seenRun_explained hfound (Instruction.microOps_resolves e.language i)
        (Sink.recording_neverBreaks MicroOp.record) .empty
      obtain ⟨-, f, hf, hnothing, herr⟩ := hlifted.error err hfail
      have hresolved := (Instruction.assembly_resolves e.language i).ok _ (hshown.ok _ h.length).2
      exact ⟨h, hfail, i, hfound, f, hf, fun hprinted => hresolved f hprinted hnothing, hnothing, herr⟩

end IsEntry

namespace PartsAt

variable {insn : DecodedInstruction} {err : DecodeError}

/-- A listing with operations goes on behind such an instruction. -/
theorem not_endsListing (h : PartsAt e insn err) : ¬ EndsListing insn.address err := by
  obtain ⟨i, -, f, -, -, -, rfl⟩ := h.reserved
  rintro (⟨n, cause, hsource⟩ | ⟨a, space, hout⟩)
  · cases hsource
  · cases hout

theorem not_showsRegisters (h : PartsAt e insn err) :
    ∃ c ∈ e.language.encodings, ¬ c.ShowsRegisters := by
  obtain ⟨i, hfound, f, hf, hnot, ⟨table, hkind, -⟩, -⟩ := h.reserved
  obtain ⟨-, -, hcandidate⟩ := e.fetch_ok hfound
  exact ⟨i.encoding, (List.mem_filter.mp hcandidate).1, fun hshows => hnot (hshows f hf table hkind)⟩

end PartsAt

/-- A listing without operations and one with them, of at most `count` entries, that are alike up to an
    instruction at which they part. -/
inductive Parted (e : Engine σ) : (count : Nat) → (plain lifted : List ListingEntry) → Prop
  | here {count : Nat} {insn : DecodedInstruction} {err : DecodeError} {plain lifted : List ListingEntry} :
      PartsAt e insn err → Lists e false count (insn.address + UInt64.ofNat insn.length) plain →
      Lists e true count (insn.address + UInt64.ofNat e.language.alignment) lifted →
      Parted e (count + 1) (.decoded insn :: plain) (.failed insn.address err.message :: lifted)
  | later {count : Nat} {plain lifted : List ListingEntry} (entry : ListingEntry) :
      Parted e count plain lifted → Parted e (count + 1) (entry.withoutOps :: plain) (entry :: lifted)

theorem Parted.exists_partsAt {count : Nat} {plain lifted : List ListingEntry} (h : Parted e count plain lifted) :
    ∃ insn err, PartsAt e insn err := by
  induction h with
  | here hparts => exact ⟨_, _, hparts⟩
  | later _ _ ih => exact ih

/-- One more entry on both sides keeps them alike, or parted. -/
theorem alike_or_parted_cons {count : Nat} {plain lifted : List ListingEntry} (entry : ListingEntry)
    (h : lifted.map (·.withoutOps) = plain ∨ Parted e count plain lifted) :
    (entry :: lifted).map (·.withoutOps) = entry.withoutOps :: plain ∨
      Parted e (count + 1) (entry.withoutOps :: plain) (entry :: lifted) := by
  rcases h with rfl | h
  · exact .inl rfl
  · exact .inr (h.later entry)

theorem FailsAt.withOps {a : UInt64} {err : DecodeError} (h : FailsAt e false a err) : FailsAt e true a err := by
  rcases h with h | ⟨-, hno, -⟩
  · exact .inl h
  · cases hno

theorem Lists.alike_or_parted {count : Nat} {a : UInt64} {plain : List ListingEntry} (h : Lists e false count a plain) :
    ∀ {lifted : List ListingEntry}, Lists e true count a lifted →
      lifted.map (·.withoutOps) = plain ∨ Parted e count plain lifted := by
  induction h with
  | full => intro lifted h'; cases h'; exact .inl rfl
  | @decoded count insn rest hentry hrest ih =>
    intro lifted h'
    generalize haddr : insn.address = a at h'
    cases h' with
    | @decoded _ insn' rest' hentry' hrest' =>
      have hsame : insn = { insn' with ops := [] } := hentry.unique hentry'.withoutOps haddr
      subst hsame
      exact alike_or_parted_cons (.decoded insn') (ih hrest')
    | ended hfail hends =>
      subst haddr
      exact absurd hends (hentry.partsAt hfail).not_endsListing
    | failed hfail _ hrest' =>
      subst haddr
      exact .inr (.here (hentry.partsAt hfail) hrest hrest')
  | ended hfail hends =>
    intro lifted h'
    cases h' with
    | decoded hentry => exact absurd hfail.withOps hentry.not_failsAt
    | ended => exact .inl rfl
    | failed hfail' hno => exact absurd (hfail.withOps.unique hfail' ▸ hends) hno
  | @failed count a err rest hfail hno _ ih =>
    intro lifted h'
    cases h' with
    | decoded hentry => exact absurd hfail.withOps hentry.not_failsAt
    | ended hfail' hends => exact absurd (hfail'.unique hfail.withOps ▸ hends) hno
    | failed hfail' _ hrest' =>
      cases hfail.withOps.unique hfail'
      exact alike_or_parted_cons (.failed a err.message) (ih hrest')

/-- With operations and without them a sweep lists the same, up to an instruction that can be shown but not
    decoded; if all registers are shown, there is none. -/
theorem sweep_parts [ReadOnly σ] (engine : Engine σ) (start : UInt64) (count : Nat) :
    ((engine.sweep start count true).1.entries.map (·.withoutOps) = (engine.sweep start count false).1.entries ∨
      Parted engine count (engine.sweep start count false).1.entries (engine.sweep start count true).1.entries) ∧
    ((∀ c ∈ engine.language.encodings, c.ShowsRegisters) →
      (engine.sweep start count true).1.entries.map (·.withoutOps) = (engine.sweep start count false).1.entries) := by
  have halike := (lists_sweep engine start count false).alike_or_parted (lists_sweep engine start count true)
  refine ⟨halike, fun hshows => halike.resolve_right fun hparted => ?_⟩
  obtain ⟨insn, err, hparts⟩ := hparted.exists_partsAt
  obtain ⟨c, hc, hnot⟩ := hparts.not_showsRegisters
  exact hnot (hshows c hc)

end Listing

/-- With operations the second `set` is a failure, and so the third is reached in both listings. -/
theorem sweep_parts_set :
    let engine := Engine.ofLanguage (⟨0, [0x11, 0x12, 0x10]⟩ : FlatImage) (Sample.languageWith Sample.set)
    (engine.sweep 0 3 false).1.entries.map (·.isDecoded) = [true, true, true] ∧
      (engine.sweep 0 3 true).1.entries.map (·.isDecoded) = [true, false, true] ∧
      ((engine.sweep 0 3 true).1.entries.map (·.withoutOps) = (engine.sweep 0 3 false).1.entries ∨
        Parted engine 3 (engine.sweep 0 3 false).1.entries (engine.sweep 0 3 true).1.entries) ∧
      ((∀ c ∈ engine.language.encodings, c.ShowsRegisters) →
        (engine.sweep 0 3 true).1.entries.map (·.withoutOps) = (engine.sweep 0 3 false).1.entries) :=
  ⟨by rfl, by rfl, sweep_parts _ 0 3⟩

/-- One `set` that is listed without operations, and is a failure with them. -/
theorem set_parts :
    let engine := Engine.ofLanguage (⟨0, [0x12]⟩ : FlatImage) (Sample.languageWith Sample.set)
    Language.ofElement (Sample.rootWith Sample.setElement) = .ok engine.language ∧
      (engine.sweep 0 1 false).1.entries = [.decoded ⟨0, 1, [0x12], ⟨"ram", 0, "set", ""⟩, []⟩] ∧
      (engine.sweep 0 1 true).1.entries = [.failed 0 "Operand 'r' has reserved value 0x2 at 0x0"] :=
  ⟨Sample.set_accepted, by rfl, by rfl⟩

end Lifter
