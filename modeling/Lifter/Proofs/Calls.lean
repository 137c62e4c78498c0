/-
  Lifter.Proofs.Calls — what a call does, whatever it makes of the instruction it finds.

  A call ends in one of four ways (`Ends`): nothing was found, what was found could not
  be explained, the sink broke down, or everything was handed over. Only `run_ends` and
  `run_engine` open `Engine.run`. Neither an observed source nor a witnessed sink
  changes how a call ends, so what they list is what the call did (`run_watched`). An
  instruction that was found cannot be explained only if a register field of it has a
  reserved value.
-/

import Lifter.Proofs.FailsOver
import Lifter.Proofs.Search

namespace Lifter

open Specification

/-! ## Explaining an instruction -/

namespace Instruction

/-- The error names an operand field of the instruction with a reserved value. -/
def IsReserved (i : Instruction) (err : DecodeError) : Prop :=
  ∃ field value, err = .invalidOperand i.start field value

variable {i : Instruction} {l : Language}

/-- A micro-operation that is resolved has the parts of its template. -/
theorem resolve_ok {t : OpTemplate} {op : ResolvedOp} (h : i.resolve l t = .ok op) :
    op.opcode = t.opcode ∧ op.output.isSome = t.output.isSome ∧ op.inputs.length = t.inputs.length := by
  simp only [resolve, bind_eq_ok, pure_eq_ok] at h
  obtain ⟨output, hout, inputs, hin, rfl⟩ := h
  exact ⟨rfl, optionMapM_eq_ok hout, (mapM_eq_ok.mp hin).length_eq.symm⟩

end Instruction

namespace Engine

theorem microOps_error {l : Language} {i : Instruction} {err : DecodeError} (h : microOps l i = .error err) :
    i.IsReserved err := by
  obtain ⟨f, -, rfl⟩ := (microOps_failsOver i l err).mp h
  exact ⟨_, _, rfl⟩

theorem assembly_error {l : Language} {i : Instruction} {err : DecodeError} (h : assembly l i = .error err) :
    i.IsReserved err := by
  obtain ⟨f, -, rfl⟩ := (assembly_failsOver i l err).mp h
  exact ⟨_, _, rfl⟩

end Engine

/-! ## Handing over -/

/-- The receipts of a delivery: all records without a fault, or the first ones up to that on which
    the sink broke down. -/
inductive Delivered {α : Type} : List α → Option Fault → List (Receipt α) → Prop
  | all : Delivered [] none []
  | broke (a : α) (as : List α) (fault : Fault) : Delivered (a :: as) (some fault) [⟨a, some fault⟩]
  | taken {a : α} {as : List α} {fault : Option Fault} {receipts : List (Receipt α)} :
      Delivered as fault receipts → Delivered (a :: as) fault (⟨a, none⟩ :: receipts)

namespace Sink

variable {α τ : Type}

theorem deliver_witnessed (sink : Sink α τ) (as : List α) :
    ∀ (t : τ) (before : List (Receipt α)), ∃ receipts,
      sink.witnessed.deliver as (t, before) =
          ((sink.deliver as t).1, (sink.deliver as t).2, before ++ receipts) ∧
        Delivered as (sink.deliver as t).1 receipts := by
  induction as with
  | nil => intro t before; exact ⟨[], by simp only [deliver, List.append_nil], .all⟩
  | cons a as ih =>
    intro t before
    rcases haccept : sink.accept t a with ⟨_ | fault, next⟩
    · obtain ⟨receipts, hdeliver, hd⟩ := ih next (before ++ [⟨a, none⟩])
      refine ⟨⟨a, none⟩ :: receipts, ?_, by simpa only [deliver, haccept] using hd.taken⟩
      rw [List.append_assoc] at hdeliver
      simp only [deliver, witnessed, haccept]
      exact hdeliver
    · refine ⟨[⟨a, some fault⟩], ?_, by simpa only [deliver, haccept] using .broke a as fault⟩
      simp only [deliver, witnessed, haccept]

end Sink

namespace Delivered

variable {α : Type} {as : List α} {receipts : List (Receipt α)}

/-- Without a fault, every record was handed over, and no other. -/
theorem of_none {outcome : Option Fault} (h : Delivered as outcome receipts) (hn : outcome = none) :
    receipts.map (·.record) = as ∧ ∀ r ∈ receipts, r.fault = none := by
  induction h with
  | all => simp
  | broke => cases hn
  | taken _ ih => simpa using ih hn

/-- The fault is that of the last receipt; up to it, records were handed over in order. -/
theorem of_some {outcome : Option Fault} (h : Delivered as outcome receipts) {fault : Fault}
    (hs : outcome = some fault) : receipts.map (·.record) <+: as ∧
      ∃ before last, receipts = before ++ [last] ∧ last.fault = some fault ∧ ∀ r ∈ before, r.fault = none := by
  induction h with
  | all => cases hs
  | broke a as fault' =>
    cases hs
    exact ⟨by simp, [], _, rfl, rfl, by simp⟩
  | @taken a as outcome receipts hd ih =>
    obtain ⟨hinit, before, last, rfl, hlast, hbefore⟩ := ih hs
    refine ⟨by simpa using hinit, ⟨a, none⟩ :: before, last, rfl, hlast, ?_⟩
    simpa using hbefore

/-- Where a receipt has a fault, the delivery ended with it. -/
theorem of_fault {outcome : Option Fault} (h : Delivered as outcome receipts) {r : Receipt α} (hr : r ∈ receipts)
    {fault : Fault} (hf : r.fault = some fault) : outcome = some fault := by
  induction h with
  | all => cases hr
  | broke => rw [List.mem_singleton.mp hr] at hf; exact hf
  | taken _ ih =>
    rcases List.mem_cons.mp hr with rfl | hr
    · cases hf
    · exact ih hr

end Delivered

/-! ## How a call ends -/

/-- The result of a call that got as far as handing over an instruction of `n` bytes. -/
def deliveryResult (offset : UInt64) (n : Nat) : Option Fault → Except DecodeError Nat
  | none => .ok n
  | some fault => .error (.callbackFault offset fault.message)

/-- How a call may end: with what result, how many bytes of the instruction, and the sink. -/
inductive Ends {α τ : Type} (offset : UInt64) (found : Except DecodeError Instruction)
    (explain : Instruction → Except DecodeError (List α)) (sink : Sink α τ) (t : τ) :
    Except DecodeError Nat → Nat → τ → Prop
  | notFound {err : DecodeError} : found = .error err → Ends offset found explain sink t (.error err) 0 t
  | notExplained {i : Instruction} {err : DecodeError} :
      found = .ok i → explain i = .error err → Ends offset found explain sink t (.error err) 0 t
  | broken {i : Instruction} {records : List α} {fault : Fault} :
      found = .ok i → explain i = .ok records → (sink.deliver records t).1 = some fault →
      Ends offset found explain sink t (.error (.callbackFault offset fault.message)) 0 (sink.deliver records t).2
  | handedOver {i : Instruction} {records : List α} :
      found = .ok i → explain i = .ok records → (sink.deliver records t).1 = none →
      Ends offset found explain sink t (.ok i.length) i.length (sink.deliver records t).2

namespace Ends

variable {α τ : Type} {offset : UInt64} {found : Except DecodeError Instruction}
  {explain : Instruction → Except DecodeError (List α)} {sink : Sink α τ} {t : τ}

/-- There is only one way for a call to end. -/
theorem unique {r r' : Except DecodeError Nat} {n n' : Nat} {s s' : τ} (h : Ends offset found explain sink t r n s)
    (h' : Ends offset found explain sink t r' n' s') : r = r' ∧ n = n' ∧ s = s' := by
  cases h with
  | notFound hf => cases h' <;> simp_all
  | notExplained hf he => cases h' <;> simp_all
  | broken hf he hd => cases h' <;> simp_all
  | handedOver hf he hd => cases h' <;> simp_all

theorem of_ok {r : Except DecodeError Nat} {n : Nat} {s : τ} (h : Ends offset found explain sink t r n s) {k : Nat}
    (hr : r = .ok k) : ∃ i records, found = .ok i ∧ explain i = .ok records ∧ k = i.length ∧ n = i.length := by
  cases h with
  | notFound | notExplained | broken => cases hr
  | handedOver hf he =>
    cases hr
    exact ⟨_, _, hf, he, rfl, rfl⟩

theorem of_error {r : Except DecodeError Nat} {n : Nat} {s : τ} (h : Ends offset found explain sink t r n s)
    {err : DecodeError} (hr : r = .error err) :
    n = 0 ∧ (found = .error err ∨ (∃ i, found = .ok i ∧ explain i = .error err) ∨
      ∃ fault : Fault, err = .callbackFault offset fault.message) := by
  cases h with
  | notFound hf => cases hr; exact ⟨rfl, .inl hf⟩
  | notExplained hf he => cases hr; exact ⟨rfl, .inr (.inl ⟨_, hf, he⟩)⟩
  | broken hf he hd => cases hr; exact ⟨rfl, .inr (.inr ⟨_, rfl⟩)⟩
  | handedOver => cases hr

/-- With a witnessed sink the call ends as it does without. Its receipts are those of the delivery, if
    there was one. -/
theorem of_witnessed {r : Except DecodeError Nat} {n : Nat} {s : τ × List (Receipt α)}
    (h : Ends offset found explain sink.witnessed (t, []) r n s) :
    Ends offset found explain sink t r n s.1 ∧
      ((s.2 = [] ∧ ∃ err, r = .error err ∧ (found = .error err ∨ ∃ i, found = .ok i ∧ explain i = .error err)) ∨
        ∃ i records outcome, found = .ok i ∧ explain i = .ok records ∧ Delivered records outcome s.2 ∧
          r = deliveryResult offset i.length outcome) := by
  cases h with
  | notFound hf => exact ⟨.notFound hf, .inl ⟨rfl, _, rfl, .inl hf⟩⟩
  | notExplained hf he => exact ⟨.notExplained hf he, .inl ⟨rfl, _, rfl, .inr ⟨_, hf, he⟩⟩⟩
  | @broken i records fault hf he hd =>
    obtain ⟨receipts, hw, hdel⟩ := sink.deliver_witnessed records t []
    rw [hw] at hd ⊢
    rw [hd] at hdel
    exact ⟨.broken hf he hd, .inr ⟨i, records, _, hf, he, hdel, rfl⟩⟩
  | @handedOver i records hf he hd =>
    obtain ⟨receipts, hw, hdel⟩ := sink.deliver_witnessed records t []
    rw [hw] at hd ⊢
    rw [hd] at hdel
    exact ⟨.handedOver hf he hd, .inr ⟨i, records, _, hf, he, hdel, rfl⟩⟩

end Ends

namespace Engine

variable {σ τ α : Type} [ByteSource σ]

/-- What a call leaves of the engine: all but the source and the bytes it read. -/
theorem run_engine (e : Engine σ) (offset : UInt64) (explain : Instruction → Except DecodeError (List α))
    (sink : Sink α τ) (t : τ) :
    (e.run offset explain sink t).engine =
      { e with source := (e.fetch offset).source, fetched := (e.fetch offset).bytes,
               used := (e.run offset explain sink t).engine.used } := by
  simp only [run]
  split
  · rfl
  · split
    · rfl
    · split <;> rfl

theorem run_source (e : Engine σ) (offset : UInt64) (explain : Instruction → Except DecodeError (List α))
    (sink : Sink α τ) (t : τ) : (e.run offset explain sink t).engine.source = (e.fetch offset).source :=
  congrArg Engine.source (e.run_engine offset explain sink t)

theorem run_fetched (e : Engine σ) (offset : UInt64) (explain : Instruction → Except DecodeError (List α))
    (sink : Sink α τ) (t : τ) : (e.run offset explain sink t).engine.fetched = (e.fetch offset).bytes :=
  congrArg Engine.fetched (e.run_engine offset explain sink t)

theorem run_ends (e : Engine σ) (offset : UInt64) (explain : Instruction → Except DecodeError (List α))
    (sink : Sink α τ) (t : τ) :
    Ends offset (e.fetch offset).result explain sink t (e.run offset explain sink t).result
      (e.run offset explain sink t).engine.used (e.run offset explain sink t).sink := by
  simp only [run]
  split
  · exact .notFound ‹_›
  · rename_i i hfound
    split
    · exact .notExplained hfound ‹_›
    · rename_i records hrecords
      split
      · rename_i fault t' hd
        have h := @Ends.broken α τ offset _ explain sink t i records fault hfound hrecords (congrArg Prod.fst hd)
        rwa [hd] at h
      · rename_i t' hd
        have h := @Ends.handedOver α τ offset _ explain sink t i records hfound hrecords (congrArg Prod.fst hd)
        rwa [hd] at h

section Watching

variable (e : Engine σ) (offset : UInt64) (explain : Instruction → Except DecodeError (List α)) (sink : Sink α τ)
  (t : τ)

theorem run_ends_observed :
    Ends offset (e.fetch offset).result explain sink t (e.observed.run offset explain sink t).result
      (e.observed.run offset explain sink t).engine.used (e.observed.run offset explain sink t).sink := by
  rw [← (e.fetch_observed offset).1]
  exact e.observed.run_ends offset explain sink t

/-- An observed source changes neither the result nor the bytes of a call, nor what the sink gets. -/
theorem run_observed :
    (e.observed.run offset explain sink t).result = (e.run offset explain sink t).result ∧
      (e.observed.run offset explain sink t).engine.lastBytes = (e.run offset explain sink t).engine.lastBytes ∧
      (e.observed.run offset explain sink t).sink = (e.run offset explain sink t).sink := by
  obtain ⟨hresult, hused, hsink⟩ :=
    (e.run_ends_observed offset explain sink t).unique (e.run_ends offset explain sink t)
  refine ⟨hresult, ?_, hsink⟩
  rw [lastBytes, lastBytes, hused, run_fetched, run_fetched, (e.fetch_observed offset).2.1]

/-- Nor does a witnessed sink change the result. -/
theorem run_watched :
    (e.observed.run offset explain sink.witnessed (t, [])).result = (e.run offset explain sink t).result :=
  ((e.run_ends_observed offset explain sink.witnessed (t, [])).of_witnessed.1.unique
    (e.run_ends offset explain sink t)).1

/-- The requests of a call are those of its search. -/
theorem requests_run :
    (e.observed.run offset explain sink t).engine.source.requests = (e.observed.fetch offset).source.requests := by
  rw [run_source]

end Watching

end Engine

end Lifter
