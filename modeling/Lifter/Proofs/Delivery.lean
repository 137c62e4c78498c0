/-
  Lifter.Proofs.Delivery — what a call hands over, and what becomes of a callback that
  breaks down.

  `Contained` is what a host may expect of a call, whatever its source and its sink do:
  all records of the instruction if the call succeeds, none if it fails, and if the sink
  breaks down the first ones, up to that on which it did. A breakdown is always the
  reported fault, at the offset of the call, and there is no other fault. The records of
  an instruction are one for each of its `<op>` elements, in order
  (`RecordsInstruction`), or one line of text.
-/

import Lifter.Image.Flat
import Lifter.Proofs.Calls
import Lifter.Proofs.Reading

namespace Lifter

open Specification

/-! ## What an instruction stands for -/

/-- A record for an `<op>` element of an instruction at `a`. -/
structure RecordsOp (a : Address) (el : Element) (op : MicroOp) : Prop where
  address : op.address = a
  opcode : ∃ code, el.attribute? "code" = some code ∧ Opcode.ofName? code = some op.opcode
  output : op.output.isSome = (el.attribute? "out").isSome
  inputs : op.inputs.length = (Text.words ((el.attribute? "in").getD "")).length

/-- The records are those of the instruction: one for each `<op>` of the element that describes it. -/
structure RecordsInstruction (instructions : Element) (l : Language) (offset : UInt64) (i : Instruction)
    (records : List MicroOp) : Prop where
  resolved : Engine.microOps l i = .ok records
  described : ∃ el ∈ instructions.childrenNamed "instruction", Describes el i.encoding ∧
    List.Forall₂ (RecordsOp (l.codeAddress offset)) (el.childrenNamed "op") records

/-- The records are the one line of the instruction. -/
def PrintsInstruction (l : Language) (offset : UInt64) (i : Instruction) (lines : List AssemblyLine) : Prop :=
  ∃ text, i.operandText l = .ok text ∧ lines = [⟨l.codeAddress offset, i.encoding.mnemonic, text⟩]

theorem microOps_templates {l : Language} {i : Instruction} {records : List MicroOp}
    (h : Engine.microOps l i = .ok records) :
    List.Forall₂ (fun (t : OpTemplate) (op : MicroOp) => op.address = l.codeAddress i.start ∧ op.opcode = t.opcode ∧
      op.output.isSome = t.output.isSome ∧ op.inputs.length = t.inputs.length) i.encoding.ops records := by
  obtain ⟨ops, hops, rfl⟩ := map_eq_ok.mp h
  rw [List.forall₂_map_right_iff]
  refine (mapM_eq_ok.mp hops).imp fun t op ht => ?_
  obtain ⟨hopcode, hout, hin⟩ := Instruction.resolve_ok ht
  exact ⟨rfl, hopcode, by simpa using hout, by simpa using hin⟩

theorem records_of_microOps {l : Language} {instructions el : Element} {i : Instruction} {records : List MicroOp}
    (hel : el ∈ instructions.childrenNamed "instruction") (hd : Describes el i.encoding)
    (h : Engine.microOps l i = .ok records) : RecordsInstruction instructions l i.start i records := by
  refine ⟨h, el, hel, hd, (forall₂_comp hd.ops (microOps_templates h)).imp ?_⟩
  rintro opEl op ⟨t, ht, haddress, hopcode, hout, hin⟩
  exact ⟨haddress, by rw [hopcode]; exact ht.opcode, hout.trans ht.output, hin.trans ht.inputs⟩

/-! ## How a call contains a failure -/

/-- How a call at `offset` ends that found `found`, of whose instruction `Full` lists the records. -/
structure Contained {α : Type} (offset : UInt64) (found : Except DecodeError Instruction)
    (Full : Instruction → List α → Prop) (result : Except DecodeError Nat) (requests : List Request)
    (receipts : List (Receipt α)) : Prop where
  ok : ∀ n, result = .ok n → ∃ i, found = .ok i ∧ n = i.length ∧ Full i (receipts.map (·.record)) ∧
    ∀ r ∈ receipts, r.fault = none
  error : ∀ err, result = .error err → (∀ a message, err ≠ .callbackFault a message) → receipts = []
  sourceBroke : ∀ q ∈ requests, ∀ fault, q.outcome = .error (.broke fault) →
    result = .error (.callbackFault offset fault.message) ∧ receipts = []
  sinkBroke : ∀ r ∈ receipts, ∀ fault, r.fault = some fault →
    result = .error (.callbackFault offset fault.message) ∧
      ∃ i records, found = .ok i ∧ Full i records ∧ receipts.map (·.record) <+: records ∧
        ∃ before, receipts = before ++ [r] ∧ ∀ q ∈ before, q.fault = none
  callbackFault : ∀ a message, result = .error (.callbackFault a message) →
    a = offset ∧ ((∃ q ∈ requests, ∃ fault, q.outcome = .error (.broke fault) ∧ fault.message = message) ∨
      ∃ r ∈ receipts, ∃ fault, r.fault = some fault ∧ fault.message = message)

section

variable {α : Type} {offset : UInt64} {found : Except DecodeError Instruction} {Full : Instruction → List α → Prop}
  {requests : List Request} (hbroke : ∀ a message, found = .error (.callbackFault a message) ↔
    a = offset ∧ ∃ q ∈ requests, ∃ fault, q.outcome = .error (.broke fault) ∧ fault.message = message)

include hbroke

/-- Nothing was handed over: the error is that of the search or of the explanation. -/
theorem contained_of_error {err : DecodeError} (h : found = .error err ∨ ∃ i, found = .ok i ∧ i.IsReserved err) :
    Contained offset found Full (.error err) requests [] := by
  refine ⟨by simp, fun _ _ _ => rfl, fun q hq fault hfail => ?_, by simp, fun a message herr => ?_⟩
  · have hfault := (hbroke offset fault.message).mpr ⟨rfl, q, hq, fault, hfail, rfl⟩
    rcases h with hf | ⟨i, hf, -⟩
    · rw [hf] at hfault
      cases hfault
      exact ⟨rfl, rfl⟩
    · rw [hf] at hfault
      cases hfault
  · cases herr
    rcases h with hf | ⟨i, hf, field, value, herr⟩
    · obtain ⟨ha, hq⟩ := (hbroke a message).mp hf
      exact ⟨ha, .inl hq⟩
    · cases herr

/-- Something was handed over: an instruction was found, so the source did not break down. -/
theorem contained_of_delivered {i : Instruction} {records : List α} {outcome : Option Fault}
    {receipts : List (Receipt α)} (hfound : found = .ok i) (hfull : Full i records)
    (hdelivered : Delivered records outcome receipts) :
    Contained offset found Full (deliveryResult offset i.length outcome) requests receipts := by
  have hsource : ∀ q ∈ requests, ∀ fault, q.outcome ≠ .error (.broke fault) := by
    intro q hq fault hfail
    have hfault := (hbroke offset fault.message).mpr ⟨rfl, q, hq, fault, hfail, rfl⟩
    rw [hfound] at hfault
    cases hfault
  cases outcome with
  | none =>
    obtain ⟨hall, hfaults⟩ := hdelivered.of_none rfl
    refine ⟨fun n hn => ?_, fun err herr => ?_, fun q hq fault hfail => absurd hfail (hsource q hq fault), ?_,
      fun a message herr => ?_⟩
    · cases hn
      exact ⟨i, hfound, rfl, by rw [hall]; exact hfull, hfaults⟩
    · cases herr
    · intro r hr fault hfault
      rw [hfaults r hr] at hfault
      cases hfault
    · cases herr
  | some fault =>
    obtain ⟨hinit, before, last, hsplit, hlast, hbefore⟩ := hdelivered.of_some rfl
    refine ⟨fun n hn => ?_, fun err herr hno => ?_, fun q hq fault hfail => absurd hfail (hsource q hq fault), ?_,
      fun a message herr => ?_⟩
    · cases hn
    · cases herr
      exact absurd rfl (hno _ _)
    · intro r hr fault' hfault
      cases hdelivered.of_fault hr hfault
      refine ⟨rfl, i, records, hfound, hfull, hinit, before, ?_, hbefore⟩
      rw [hsplit] at hr
      rcases List.mem_append.mp hr with hr | hr
      · rw [hbefore r hr] at hfault
        cases hfault
      · rw [List.mem_singleton.mp hr]
        exact hsplit
    · cases herr
      exact ⟨rfl, .inr ⟨last, by rw [hsplit]; simp, fault, hlast, rfl⟩⟩

end

theorem Engine.run_contained {σ τ α : Type} [ByteSource σ] {e : Engine σ} {offset : UInt64}
    {explain : Instruction → Except DecodeError (List α)}
    (hexplain : ∀ i err, explain i = .error err → i.IsReserved err) {Full : Instruction → List α → Prop}
    (hfull : ∀ i records, (e.fetch offset).result = .ok i → explain i = .ok records → Full i records)
    (sink : Sink α τ) (t : τ) :
    Contained offset (e.fetch offset).result Full (e.run offset explain sink t).result
      (e.observed.run offset explain sink.witnessed (t, [])).engine.source.requests
      (e.observed.run offset explain sink.witnessed (t, [])).sink.2 := by
  rw [requests_run, ← run_watched]
  rcases (e.run_ends_observed offset explain sink.witnessed (t, [])).of_witnessed.2 with
    ⟨hnone, err, hr, hfound⟩ | ⟨i, records, outcome, hfound, hrecords, hdelivered, hr⟩
  · rw [hnone, hr]
    refine contained_of_error (fun _ _ => e.fetch_callbackFault_iff) ?_
    rcases hfound with hf | ⟨i, hf, he⟩
    · exact .inl hf
    · exact .inr ⟨i, hf, hexplain i err he⟩
  · rw [hr]
    exact contained_of_delivered (fun _ _ => e.fetch_callbackFault_iff) hfound (hfull i records hfound hrecords)
      hdelivered

variable {σ : Type} [ByteSource σ]

/-- Every call on an accepted language hands over all records of the instruction, or those up to the one on
    which the sink broke down, or none, and reports every breakdown. -/
theorem calls_contained {root : Element} (engine : Engine σ) (offset : UInt64)
    (accepted : Language.ofElement root = .ok engine.language) :
    ∃ instructions, root.child? "instructions" = some instructions ∧
      (∀ (τ : Type) (sink : Sink MicroOp τ) (t : τ),
        Contained offset (engine.fetch offset).result (RecordsInstruction instructions engine.language offset)
          (engine.decode offset sink t).result
          (engine.observed.decode offset sink.witnessed (t, [])).engine.source.requests
          (engine.observed.decode offset sink.witnessed (t, [])).sink.2) ∧
      (∀ (τ : Type) (sink : Sink AssemblyLine τ) (t : τ),
        Contained offset (engine.fetch offset).result (PrintsInstruction engine.language offset)
          (engine.disassemble offset sink t).result
          (engine.observed.disassemble offset sink.witnessed (t, [])).engine.source.requests
          (engine.observed.disassemble offset sink.witnessed (t, [])).sink.2) := by
  obtain ⟨instructions, declared, hchild, hdescribed, hordered⟩ := ofElement_encodings accepted
  refine ⟨instructions, hchild, fun τ sink t => ?_, fun τ sink t => ?_⟩
  · refine Engine.run_contained (fun i err h => Engine.microOps_error h) (fun i records hfound h => ?_) sink t
    obtain ⟨-, rfl, hcandidate⟩ := engine.fetch_ok hfound
    obtain ⟨el, hel, hd⟩ :=
      exists_of_forall₂ hdescribed i.encoding (hordered.mem (List.mem_filter.mp hcandidate).1)
    exact records_of_microOps hel hd h
  · refine Engine.run_contained (fun i err h => Engine.assembly_error h) (fun i lines hfound h => ?_) sink t
    obtain ⟨-, rfl, -⟩ := engine.fetch_ok hfound
    obtain ⟨text, htext, rfl⟩ := map_eq_ok.mp h
    exact ⟨text, htext, rfl⟩

/-- The sample language hands over the two operations of `inc`. -/
theorem calls_contained_inc :
    let engine := Engine.ofLanguage (⟨0, [0x11]⟩ : FlatImage) Sample.language
    Language.ofElement Sample.root = .ok engine.language ∧
      (engine.decode 0 Sink.ops .empty).sink.records.map (·.opcode) = [.intAdd, .copy] ∧
      ∃ instructions, Sample.root.child? "instructions" = some instructions ∧
        (∀ (τ : Type) (sink : Sink MicroOp τ) (t : τ),
          Contained 0 (engine.fetch 0).result (RecordsInstruction instructions engine.language 0)
            (engine.decode 0 sink t).result
            (engine.observed.decode 0 sink.witnessed (t, [])).engine.source.requests
            (engine.observed.decode 0 sink.witnessed (t, [])).sink.2) ∧
        (∀ (τ : Type) (sink : Sink AssemblyLine τ) (t : τ),
          Contained 0 (engine.fetch 0).result (PrintsInstruction engine.language 0)
            (engine.disassemble 0 sink t).result
            (engine.observed.disassemble 0 sink.witnessed (t, [])).engine.source.requests
            (engine.observed.disassemble 0 sink.witnessed (t, [])).sink.2) :=
  ⟨Sample.accepted, by rfl, calls_contained _ 0 Sample.accepted⟩

end Lifter
