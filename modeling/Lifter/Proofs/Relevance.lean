/-
  Lifter.Proofs.Relevance — how much of the context a call sees.

  A call asks its context for the fields that conditions of the description name, at its
  own address, and for nothing else. So two contexts that give these fields the same
  values there are the same to it. What value a field has is said by the history, and an
  operation on another field, or one that assigns to other addresses, can be struck out of
  it (`Resolves.strike`). Hence it can be left out of the history of an engine
  (`Engine.sees_relevant_context`).
-/

import Lifter.Proofs.Appending
import Lifter.Proofs.FirstMatch
import Lifter.Proofs.History
import Lifter.Proofs.NoBreach

namespace Lifter

open Specification

/-! ## Conditions of a description -/

/-- A condition of one of the instructions is about the field. -/
def Element.AsksFor (root : Element) (name : String) : Prop :=
  ∃ instructions, root.child? "instructions" = some instructions ∧
    ∃ el ∈ instructions.childrenNamed "instruction", ∃ condition ∈ el.childrenNamed "when",
      condition.attribute? "field" = some name

theorem asksFor_of_constraint {root : Element} {l : Language} (h : Language.ofElement root = .ok l) {e : Encoding}
    (he : e ∈ l.encodings) {c : Constraint} (hc : c ∈ e.constraints) : root.AsksFor c.field := by
  obtain ⟨instructions, declared, hchild, hdescribed, hordered⟩ := ofElement_encodings h
  obtain ⟨el, hel, hdescribes⟩ := exists_of_forall₂ hdescribed e (hordered.mem he)
  obtain ⟨condition, hcondition, hfield, -⟩ := exists_of_forall₂ hdescribes.constraints c hc
  exact ⟨instructions, hchild, el, hel, condition, hcondition, hfield⟩

/-! ## Operations that do not matter -/

namespace ContextOp

/-- Whatever the field had at `a` before the operation, it has after it. -/
def Spares (op : ContextOp) (name : String) (a : Address) : Prop :=
  op.name ≠ name ∨ ∃ x, op.assignment? = some x ∧ ¬ x.Covers a

/-- The operation is about a field that no condition is about, or assigns a value to other addresses. -/
def PassesBy (op : ContextOp) (root : Element) (a : Address) : Prop :=
  ¬ root.AsksFor op.name ∨ ∃ x, op.assignment? = some x ∧ ¬ x.Covers a

variable {op : ContextOp} {root : Element} {name : String} {a : Address}

theorem PassesBy.spares (h : op.PassesBy root a) (hname : root.AsksFor name) : op.Spares name a := by
  rcases h with hno | hother
  · exact .inl fun heq => hno (heq ▸ hname)
  · exact .inr hother

theorem Spares.ne_clear (h : op.Spares name a) : op ≠ .clear name := by
  rintro rfl
  rcases h with hne | ⟨x, hx, -⟩
  · exact hne rfl
  · cases hx

theorem Spares.default?_eq_none (h : op.Spares name a) (hname : op.name = name) : op.default? = none := by
  rcases h with hne | ⟨x, hx, -⟩
  · exact absurd hname hne
  · cases op with
    | setDefault | clear => cases hx
    | setFrom | setRange => rfl

end ContextOp

section Striking

variable {name : String} {a : Address} {before behind : List ContextOp} {op : ContextOp}

/-- Where an operation stands once another one is inserted at position `n`. -/
def shifted (n k : Nat) : Nat := if k < n then k else k + 1

theorem shifted_lt_shifted {n k j : Nat} : shifted n k < shifted n j ↔ k < j := by
  unfold shifted
  split <;> split <;> omega

/-- Every position but the one of the inserted operation is that of another. -/
theorem eq_shifted_of_ne {n k : Nat} (h : k ≠ n) : ∃ j, k = shifted n j := by
  rcases Nat.lt_or_ge k n with hlt | hge
  · exact ⟨k, by rw [shifted, if_pos hlt]⟩
  · exact ⟨k - 1, by rw [shifted, if_neg (by omega)]; omega⟩

theorem getElem?_shifted (k : Nat) :
    (before ++ op :: behind)[shifted before.length k]? = (before ++ behind)[k]? := by
  unfold shifted
  split
  · rename_i hlt
    rw [List.getElem?_append_left hlt, List.getElem?_append_left hlt]
  · rename_i hge
    rw [List.getElem?_append_right (by omega), List.getElem?_append_right (by omega),
      Nat.succ_sub (by omega), List.getElem?_cons_succ]

theorem inForce_shifted (hclear : op ≠ .clear name) {k : Nat} {x : Assignment} :
    InForce name (before ++ op :: behind) (shifted before.length k) x ↔ InForce name (before ++ behind) k x := by
  unfold InForce
  rw [getElem?_shifted]
  refine and_congr_right fun _ => ⟨fun h j hj => ?_, fun h j hj => ?_⟩
  · have hnot := h (shifted before.length j) (shifted_lt_shifted.mpr hj)
    rwa [getElem?_shifted] at hnot
  · by_cases hop : j = before.length
    · subst hop
      simpa using hclear
    · obtain ⟨i, rfl⟩ := eq_shifted_of_ne hop
      rw [getElem?_shifted]
      exact h i (shifted_lt_shifted.mp hj)

/-- An assignment that is in force at `a` is another one. -/
theorem InForce.eq_shifted (hspares : op.Spares name a) {k : Nat} {x : Assignment}
    (h : InForce name (before ++ op :: behind) k x) (hcovers : x.Covers a) : ∃ j, k = shifted before.length j := by
  refine eq_shifted_of_ne fun hk => ?_
  subst hk
  obtain ⟨⟨op', hop, hname, hx⟩, -⟩ := h
  obtain rfl : op = op' := by simpa using hop
  rcases hspares with hne | ⟨y, hy, hnot⟩
  · exact hne hname
  · cases hx.symm.trans hy
    exact hnot hcovers

theorem latestDefault?_strike (hspares : op.Spares name a) :
    latestDefault? name (before ++ op :: behind) = latestDefault? name (before ++ behind) := by
  unfold latestDefault?
  by_cases hname : op.name = name
  · simp [List.filter_append, hname, hspares.default?_eq_none hname]
  · simp [List.filter_append, hname]

/-- The value of a field at `a` does not depend on the operations that spare it there. -/
theorem Resolves.strike {declared v : UInt32} (hspares : op.Spares name a)
    (h : Resolves (before ++ behind) name a declared v) : Resolves (before ++ op :: behind) name a declared v := by
  have hclear := hspares.ne_clear
  cases h with
  | @assigned k x hx hcovers hbest =>
    refine .assigned ((inForce_shifted hclear).mpr hx) hcovers fun j y hy hy' => ?_
    obtain ⟨j, rfl⟩ := hy.eq_shifted hspares hy'
    have hj := hbest j y ((inForce_shifted hclear).mp hy) hy'
    have horder : shifted before.length k < shifted before.length j ↔ k < j := shifted_lt_shifted
    omega
  | default hnone =>
    rw [← latestDefault?_strike hspares]
    refine .default fun j y hy hy' => ?_
    obtain ⟨j, rfl⟩ := hy.eq_shifted hspares hy'
    exact hnone j y ((inForce_shifted hclear).mp hy) hy'

end Striking

namespace Context

/-- Left out of the history, an operation that spares a field does not change its value. -/
theorem get_strike {fields : List ContextField} {before behind : List ContextOp} {op : ContextOp} {name : String}
    {a : Address} (hspares : op.Spares name a) :
    ((ofFields fields).performAll (before ++ op :: behind)).get name a =
      ((ofFields fields).performAll (before ++ behind)).get name a := by
  have hfollows := follows_performAll (before ++ op :: behind) (Follows.ofFields fields)
  have hfollows' := follows_performAll (before ++ behind) (Follows.ofFields fields)
  rw [List.nil_append, succeeded_eq_filter] at hfollows hfollows'
  cases hf : fields.find? (·.name == name) with
  | none => rw [hfollows.get_undeclared hf, hfollows'.get_undeclared hf]
  | some f =>
    obtain ⟨v, hget, hv⟩ := hfollows'.exists_get hf a
    rw [hget]
    refine hfollows.get_eq hf ?_
    -- an operation that fails is not in the history anyway
    rw [List.filter_append] at hv ⊢
    by_cases hvalid : op.isValid fields = true
    · rw [List.filter_cons_of_pos hvalid]
      exact hv.strike hspares
    · rw [List.filter_cons_of_neg hvalid]
      exact hv

end Context

/-! ## Calls -/

namespace Engine

variable {σ : Type} [ByteSource σ] {e e' : Engine σ} {offset : UInt64}

/-- A context is looked at for the candidates only. -/
theorem fetch_of_candidates (hsource : e'.source = e.source) (hlanguage : e'.language = e.language)
    (hcandidates : e'.candidates offset = e.candidates offset) : e'.fetch offset = e.fetch offset := by
  rcases inPlace_cases e.language offset with h | ⟨h, ha⟩ | h
  · rw [e.fetch_outOfSpace h, e'.fetch_outOfSpace (by rw [hlanguage]; exact h), hlanguage, hsource]
  · rw [e.fetch_misaligned h ha, e'.fetch_misaligned (by rw [hlanguage]; exact h) (by rw [hlanguage]; exact ha),
      hlanguage, hsource]
  · rw [e.fetch_inPlace h, e'.fetch_inPlace (by rw [hlanguage]; exact h), hcandidates, hlanguage, hsource]

omit [ByteSource σ] in
/-- The conditions see the same values. -/
theorem candidates_of_agree (hlanguage : e'.language = e.language)
    (hagree : ∀ c ∈ e.language.encodings, ∀ k ∈ c.constraints,
      e'.context.get k.field (e.language.codeAddress offset) = e.context.get k.field (e.language.codeAddress offset)) :
    e'.candidates offset = e.candidates offset := by
  rw [candidates, candidates, hlanguage]
  refine List.filter_congr fun c hc => ?_
  rw [← Bool.coe_iff_coe, Encoding.isAdmitted_iff, Encoding.isAdmitted_iff]
  exact forall₂_congr fun k hk => by rw [hagree c hc k hk]

/-- Calls at `offset` have the same result, hand over the same records, ask for the same bytes and leave the
    same latest bytes, the same source and the same sink. -/
structure ActsAlike (e' e : Engine σ) (offset : UInt64) : Prop where
  decode : ∀ {τ : Type} (sink : Sink MicroOp τ) (t : τ), e'.seenDecode offset sink t = e.seenDecode offset sink t ∧
    (e'.decode offset sink t).sink = (e.decode offset sink t).sink ∧
    (e'.decode offset sink t).engine.source = (e.decode offset sink t).engine.source
  disassemble : ∀ {τ : Type} (sink : Sink AssemblyLine τ) (t : τ),
    e'.seenDisassemble offset sink t = e.seenDisassemble offset sink t ∧
    (e'.disassemble offset sink t).sink = (e.disassemble offset sink t).sink ∧
    (e'.disassemble offset sink t).engine.source = (e.disassemble offset sink t).engine.source

/-- What a call leaves depends on its search only. -/
theorem run_of_fetch {τ α : Type} (h : e'.fetch offset = e.fetch offset)
    (explain : Instruction → Except DecodeError (List α)) (sink : Sink α τ) (t : τ) :
    (e'.run offset explain sink t).sink = (e.run offset explain sink t).sink ∧
      (e'.run offset explain sink t).engine.source = (e.run offset explain sink t).engine.source := by
  have hends := e'.run_ends offset explain sink t
  rw [h] at hends
  exact ⟨(hends.unique (e.run_ends offset explain sink t)).2.2, by rw [run_source, run_source, h]⟩

theorem actsAlike_of_candidates (hsource : e'.source = e.source) (hlanguage : e'.language = e.language)
    (hcandidates : e'.candidates offset = e.candidates offset) : e'.ActsAlike e offset := by
  have hfetch := fetch_of_candidates hsource hlanguage hcandidates
  have hobserved : e'.observed.fetch offset = e.observed.fetch offset :=
    fetch_of_candidates (congrArg Observed.ofSource hsource) hlanguage hcandidates
  obtain ⟨source, language, context, fetched, used⟩ := e
  obtain ⟨source', language', context', fetched', used'⟩ := e'
  cases hlanguage
  exact ⟨fun sink t => ⟨seenRun_of_fetch hfetch hobserved _ sink t, run_of_fetch hfetch _ sink t⟩,
    fun sink t => ⟨seenRun_of_fetch hfetch hobserved _ sink t, run_of_fetch hfetch _ sink t⟩⟩

/-- Two contexts of an accepted language, whatever was done to either, are the same to calls at `offset` if they
    have the same values there for the fields that conditions are about. So are two whose histories differ in one
    operation, which is about another field or assigns to other addresses. What a call compares with a condition,
    by the position of its field, is such a value. -/
theorem sees_relevant_context {root : Element} (engine engine' : Engine σ) (offset : UInt64)
    (ops ops' : List ContextOp) (accepted : Language.ofElement root = .ok engine.language)
    (source : engine'.source = engine.source) (language : engine'.language = engine.language)
    (reached : engine.context = (Context.ofFields engine.language.contextFields).performAll ops)
    (reached' : engine'.context = (Context.ofFields engine.language.contextFields).performAll ops') :
    ((∀ name, root.AsksFor name →
        engine'.context.get name (engine.language.codeAddress offset) =
          engine.context.get name (engine.language.codeAddress offset)) →
      engine'.ActsAlike engine offset) ∧
    (∀ before op behind, ops' = before ++ op :: behind → ops = before ++ behind →
      op.PassesBy root (engine.language.codeAddress offset) → engine'.ActsAlike engine offset) ∧
    engine.ReadsByPosition offset ∧ engine'.ReadsByPosition offset := by
  have hw := ofElement_wellFormed accepted
  have halike : (∀ name, root.AsksFor name →
      engine'.context.get name (engine.language.codeAddress offset) =
        engine.context.get name (engine.language.codeAddress offset)) → engine'.ActsAlike engine offset :=
    fun hagree => actsAlike_of_candidates source language <|
      candidates_of_agree language fun c hc k hk => hagree k.field (asksFor_of_constraint accepted hc hk)
  refine ⟨halike, ?_, readsByPosition_performAll hw reached, ?_⟩
  · rintro before op behind rfl rfl hpasses
    refine halike fun name hname => ?_
    rw [reached, reached']
    exact Context.get_strike (hpasses.spares hname)
  · rw [← language] at hw reached'
    exact readsByPosition_performAll hw reached'

end Engine

namespace Sample

def widen : ContextOp := .setDefault "wide" 1

/-- Of the registers only. -/
def narrowRegisters : ContextOp := .setFrom "wide" (registerSpace.address 0) 0

theorem narrowRegisters_passesBy : narrowRegisters.PassesBy root (language.codeAddress 0) :=
  .inr ⟨_, rfl, fun h => absurd h.1 (by decide)⟩

/-- An engine over the bytes of a `jump`, after these operations. -/
def jumpAfter (ops : List ContextOp) : Engine FlatImage :=
  ⟨⟨0, [0x20, 0x05]⟩, language, (Context.ofFields language.contextFields).performAll ops, [], 0⟩

end Sample

/-- What is said of registers does not matter to `jump`, which is code, though a condition is about the same field. -/
theorem Engine.sees_relevant_context_jump :
    let engine := Sample.jumpAfter [Sample.widen]
    let engine' := Sample.jumpAfter [Sample.widen, Sample.narrowRegisters]
    Language.ofElement Sample.root = .ok engine.language ∧ Sample.root.AsksFor "wide" ∧
      engine'.context ≠ engine.context ∧ (engine.decode 0 Sink.ops .empty).result = .ok 2 ∧
      Sample.narrowRegisters.PassesBy Sample.root (engine.language.codeAddress 0) ∧ engine'.ActsAlike engine 0 :=
  ⟨Sample.accepted, ⟨_, rfl, _, .head _, _, .head _, rfl⟩, by decide, by rfl, Sample.narrowRegisters_passesBy,
    (Engine.sees_relevant_context (Sample.jumpAfter [Sample.widen])
      (Sample.jumpAfter [Sample.widen, Sample.narrowRegisters]) 0 _ _ Sample.accepted rfl rfl rfl rfl).2.1
      [Sample.widen] Sample.narrowRegisters [] rfl rfl Sample.narrowRegisters_passesBy⟩

end Lifter
