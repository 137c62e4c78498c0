/-
  Lifter.Proofs.CodeRanges — what an assignment to a range of code changes.

  After one assignment more, a field has the new value where the assignment covers an
  address, unless one to fewer offsets is in force there; there, and wherever it does not
  reach, the field has what it had (`get_of_assignment`).

  The end of a range of code is not included, and is wrapped to the code space like any
  offset. So it is the end that was meant as long as it is an offset of the space
  (`setContextRange_covers`). The one behind the last offset becomes 0, which ends no
  range, and those further on end shorter ones (`wide_ends_wrapped`).
-/

import Lifter.Proofs.Reading
import Lifter.Proofs.Relevance

namespace Lifter

open Specification

/-! ## One assignment more -/

/-- An assignment in force to fewer than `count` offsets covers `a`. -/
def NarrowerAt (name : String) (log : List ContextOp) (count : Nat) (a : Address) : Prop :=
  ∃ k x, InForce name log k x ∧ x.Covers a ∧ x.size < count

section Assigned

variable {log : List ContextOp} {name : String} {a : Address} {declared v : UInt32} {op : ContextOp} {x : Assignment}

theorem Resolves.of_assigned (hname : op.name = name) (hx : op.assignment? = some x) (hcovers : x.Covers a)
    (hnarrow : ¬ NarrowerAt name log x.size a) : Resolves (log ++ [op]) name a declared x.value := by
  refine .assigned (inForce_snoc.mpr (.inr ⟨rfl, hname, hx⟩)) hcovers fun j y hy hy' => ?_
  rcases inForce_snoc.mp hy with ⟨hy, -⟩ | ⟨rfl, -, hyx⟩
  · have hearlier := hy.lt_length
    have hsize : ¬ y.size < x.size := fun hlt => hnarrow ⟨j, y, hy, hy', hlt⟩
    omega
  · cases hx.symm.trans hyx
    omega

theorem Resolves.of_narrower (hx : op.assignment? = some x) (hnarrow : NarrowerAt name log x.size a)
    (h : Resolves log name a declared v) : Resolves (log ++ [op]) name a declared v := by
  have hclear : op ≠ .clear name := by
    rintro rfl
    cases hx
  obtain ⟨i, z, hz, hz', hlt⟩ := hnarrow
  cases h with
  | default hnone => exact absurd hz' (hnone i z hz)
  | assigned hw hcovers hbest =>
    refine .assigned (inForce_snoc.mpr (.inl ⟨hw, hclear⟩)) hcovers fun j y hy hy' => ?_
    rcases inForce_snoc.mp hy with ⟨hy, -⟩ | ⟨rfl, -, hyx⟩
    · exact hbest j y hy hy'
    · -- the new one is beaten by the narrower one, which the winner beats or is
      cases hx.symm.trans hyx
      have hz := hbest i z hz hz'
      omega

theorem Resolves.of_uncovered (hx : op.assignment? = some x) (hcovers : ¬ x.Covers a)
    (h : Resolves log name a declared v) : Resolves (log ++ [op]) name a declared v :=
  Resolves.strike (.inr ⟨x, hx, hcovers⟩) (by rwa [List.append_nil])

end Assigned

namespace Follows

variable {fields : List ContextField} {log : List ContextOp} {c next : Context} {name : String} {f : ContextField}

/-- An assignment gives its value to the addresses that it covers and no narrower one does, and changes no other. -/
theorem get_of_assignment (h : Follows fields log c) (hf : fields.find? (·.name == name) = some f) {op : ContextOp}
    {x : Assignment} (hop : op.apply c = .ok next) (hname : op.name = name) (hx : op.assignment? = some x)
    (a : Address) :
    (x.Covers a ∧ ¬ NarrowerAt name log x.size a → next.get name a = .ok x.value) ∧
      (¬ x.Covers a ∨ NarrowerAt name log x.size a → next.get name a = c.get name a) := by
  have hnext := h.follows_apply hop
  obtain ⟨v, hget, hv⟩ := h.exists_get hf a
  refine ⟨fun ⟨hcovers, hnarrow⟩ => hnext.get_eq hf (.of_assigned hname hx hcovers hnarrow), ?_⟩
  rw [hget]
  rintro (hcovers | hnarrow)
  · exact hnext.get_eq hf (hv.of_uncovered hx hcovers)
  · exact hnext.get_eq hf (hv.of_narrower hx hnarrow)

end Follows

/-! ## Ranges of code -/

/-- The value for the offsets from `first` up to `stop`, which is not included. -/
def Assignment.halfOpen (space : SpaceId) (first stop : UInt64) (value : UInt32) : Assignment :=
  ⟨space, first, stop - 1, value⟩

namespace Assignment

variable {space : SpaceId} {first stop : UInt64} {value : UInt32}

theorem covers_halfOpen (h : first < stop) {a : Address} :
    (halfOpen space first stop value).Covers a ↔ space = a.space.id ∧ first ≤ a.offset ∧ a.offset < stop := by
  refine and_congr_right fun _ => and_congr_right fun _ => ?_
  rw [halfOpen, UInt64.le_iff_toNat_le, UInt64.lt_iff_toNat_lt, ← toNat_sub_one h]
  exact Nat.lt_succ_iff.symm

theorem size_halfOpen (h : first < stop) : (halfOpen space first stop value).size = stop.toNat - first.toNat := by
  have hlast := toNat_sub_one h
  rw [UInt64.lt_iff_toNat_lt] at h
  change (stop - 1).toNat - first.toNat + 1 = stop.toNat - first.toNat
  omega

end Assignment

namespace Engine

variable {σ : Type} {e : Engine σ} {name : String} {first stop : UInt64} {value : UInt32}

/-- The operation on the context for a range of code. -/
def codeRange (e : Engine σ) (name : String) (first stop : UInt64) (value : UInt32) : ContextOp :=
  .setRange name (e.language.codeAddress first) (e.language.codeAddress stop) value

theorem assignment?_codeRange (hfirst : first ≤ e.language.codeSpace.highest) :
    (e.codeRange name first stop value).assignment? =
      some (.halfOpen e.language.codeSpace.id first (e.language.codeSpace.wrap stop) value) := by
  have hwrap : (e.language.codeAddress first).offset = first := Space.wrap_of_le hfirst
  simp only [codeRange, ContextOp.assignment?, hwrap]
  rfl

theorem hasRange_codeRange (hfirst : first ≤ e.language.codeSpace.highest) :
    (e.codeRange name first stop value).hasRange = true ↔ first < e.language.codeSpace.wrap stop := by
  have hwrap : (e.language.codeAddress first).offset = first := Space.wrap_of_le hfirst
  rw [codeRange, ContextOp.hasRange, decide_eq_true_iff, hwrap]
  exact ⟨fun h => h.2, fun h => ⟨rfl, h⟩⟩

theorem setContextRange_eq_ok {next : Engine σ} :
    e.setContextRange name first stop value = .ok next ↔
      ∃ c, (e.codeRange name first stop value).apply e.context = .ok c ∧ { e with context := c } = next := map_eq_ok

theorem setContextRange_refuses (hfirst : first ≤ e.language.codeSpace.highest)
    (h : ¬ first < e.language.codeSpace.wrap stop) :
    e.setContextRange name first stop value = .error (.invalidRange name) := by
  have hrange : ¬ (e.codeRange name first stop value).hasRange = true := (hasRange_codeRange hfirst).not.mpr h
  rw [codeRange, ContextOp.hasRange, decide_eq_true_iff] at hrange
  rw [setContextRange, Context.setRange, if_neg hrange]
  rfl

section Declared

variable {fields : List ContextField} {log : List ContextOp} {f : ContextField}

theorem isValid_codeRange (declared : fields.find? (·.name == name) = some f) (fitting : f.fits value = true)
    (hfirst : first ≤ e.language.codeSpace.highest) :
    (e.codeRange name first stop value).isValid fields = true ↔ first < e.language.codeSpace.wrap stop := by
  have hname : (e.codeRange name first stop value).name = name := rfl
  have hvalue : (e.codeRange name first stop value).value? = some value := rfl
  rw [ContextOp.isValid, hname, declared, hvalue]
  simp only [Option.all_some, fitting, Bool.true_and]
  exact hasRange_codeRange hfirst

theorem setContextRange_succeeds_iff (h : Follows fields log e.context)
    (declared : fields.find? (·.name == name) = some f) (fitting : f.fits value = true)
    (hfirst : first ≤ e.language.codeSpace.highest) :
    (∃ next, e.setContextRange name first stop value = .ok next) ↔ first < e.language.codeSpace.wrap stop := by
  rw [← isValid_codeRange declared fitting hfirst, ← h.succeeds_iff]
  simp only [setContextRange_eq_ok]
  exact ⟨fun ⟨_, c, hc, _⟩ => ⟨c, hc⟩, fun ⟨c, hc⟩ => ⟨_, c, hc, rfl⟩⟩

/-- What an address has once a range of code has been assigned to. -/
theorem get_of_codeRange (h : Follows fields log e.context) (declared : fields.find? (·.name == name) = some f)
    (hfirst : first ≤ e.language.codeSpace.highest) (hlt : first < e.language.codeSpace.wrap stop) {c : Context}
    (hc : (e.codeRange name first stop value).apply e.context = .ok c) (a : Address) :
    ((e.language.codeSpace.id = a.space.id ∧ first ≤ a.offset ∧ a.offset < e.language.codeSpace.wrap stop) ∧
        ¬ NarrowerAt name log ((e.language.codeSpace.wrap stop).toNat - first.toNat) a → c.get name a = .ok value) ∧
      (¬ (e.language.codeSpace.id = a.space.id ∧ first ≤ a.offset ∧ a.offset < e.language.codeSpace.wrap stop) ∨
        NarrowerAt name log ((e.language.codeSpace.wrap stop).toNat - first.toNat) a →
        c.get name a = e.context.get name a) := by
  have hget := h.get_of_assignment declared hc rfl (assignment?_codeRange hfirst) a
  rwa [Assignment.covers_halfOpen hlt, Assignment.size_halfOpen hlt] at hget

end Declared

/-- A range of code is assigned to if its end, wrapped to the space, is behind its beginning. Then the field has the
    value from the one up to the other, unless a narrower assignment is in force, and nowhere else has it another
    value than before. An end in the space is not changed, and no end is made larger. -/
theorem setContextRange_covers (engine : Engine σ) (fields : List ContextField) (ops : List ContextOp)
    (reached : engine.context = (Context.ofFields fields).performAll ops) (name : String) (f : ContextField)
    (declared : fields.find? (·.name == name) = some f) (first stop : UInt64) (value : UInt32)
    (fitting : f.fits value = true) (inside : first ≤ engine.language.codeSpace.highest) :
    let space := engine.language.codeSpace
    let log := (Context.ofFields fields).succeeded ops
    ((∃ next, engine.setContextRange name first stop value = .ok next) ↔ first < space.wrap stop) ∧
      (¬ first < space.wrap stop →
        engine.setContextRange name first stop value = .error (.invalidRange name)) ∧
      (stop ≤ space.highest → space.wrap stop = stop) ∧ space.wrap stop ≤ stop ∧
      ∀ next, engine.setContextRange name first stop value = .ok next →
        (∀ offset ≤ space.highest, first ≤ offset → offset < space.wrap stop →
          ¬ NarrowerAt name log ((space.wrap stop).toNat - first.toNat) (engine.language.codeAddress offset) →
          next.contextValue name offset = .ok value) ∧
        (∀ offset ≤ space.highest, offset < first ∨ space.wrap stop ≤ offset ∨
          NarrowerAt name log ((space.wrap stop).toNat - first.toNat) (engine.language.codeAddress offset) →
          next.contextValue name offset = engine.contextValue name offset) ∧
        ∀ a, a.space.id ≠ space.id → next.context.get name a = engine.context.get name a := by
  intro space log
  have hfollows : Follows fields log engine.context := by
    rw [reached]
    exact Context.follows_performAll ops (Follows.ofFields fields)
  have hsucceeds : (∃ next, engine.setContextRange name first stop value = .ok next) ↔ first < space.wrap stop :=
    setContextRange_succeeds_iff hfollows declared fitting inside
  refine ⟨hsucceeds, setContextRange_refuses inside, Space.wrap_of_le, ?_, fun next hok => ?_⟩
  · rw [UInt64.le_iff_toNat_le, Space.toNat_wrap]
    exact Nat.mod_le _ _
  obtain ⟨c, hc, rfl⟩ := setContextRange_eq_ok.mp hok
  have hget := get_of_codeRange hfollows declared inside (hsucceeds.mp ⟨_, hok⟩) hc
  have hoffset : ∀ offset ≤ space.highest, (engine.language.codeAddress offset).offset = offset :=
    fun offset h => Space.wrap_of_le h
  refine ⟨fun offset hin hfirst hstop hnarrow => ?_, fun offset hin hout => ?_, fun a ha => ?_⟩
  · refine (hget (engine.language.codeAddress offset)).1 ⟨⟨rfl, ?_⟩, hnarrow⟩
    rw [hoffset offset hin]
    exact ⟨hfirst, hstop⟩
  · refine (hget (engine.language.codeAddress offset)).2 ?_
    rw [hoffset offset hin]
    rcases hout with hbefore | hbehind | hnarrow
    · exact .inl fun h => UInt64.not_le.mpr hbefore h.2.1
    · exact .inl fun h => UInt64.not_le.mpr h.2.2 hbehind
    · exact .inr hnarrow
  · exact (hget a).2 (.inl fun h => ha h.1.symm)

end Engine

namespace Sample

/-- To four offsets. -/
def narrowCode : ContextOp := .setRange "wide" (ram.address 0x24) (ram.address 0x28) 0

/-- It is in force there, and nothing else is. -/
theorem narrowerAt_narrowCode (offset : UInt64) :
    NarrowerAt "wide" ((Context.ofFields language.contextFields).succeeded [narrowCode]) 0x10
      (language.codeAddress offset) ↔ 0x24 ≤ ram.wrap offset ∧ ram.wrap offset < 0x28 := by
  have hlog : (Context.ofFields language.contextFields).succeeded [narrowCode] = [] ++ [narrowCode] := by rfl
  have hassigned : narrowCode.assignment? = some (.halfOpen ⟨1⟩ 0x24 0x28 0) := by rfl
  have hcovers : (Assignment.halfOpen ⟨1⟩ 0x24 0x28 0).Covers (language.codeAddress offset) ↔ _ :=
    Assignment.covers_halfOpen (by decide)
  rw [hlog]
  constructor
  · rintro ⟨k, x, ⟨⟨op, hop, -, hx⟩, -⟩, hx', -⟩
    obtain rfl : op = narrowCode := List.mem_singleton.mp (List.mem_of_getElem? hop)
    cases hassigned.symm.trans hx
    exact (hcovers.mp hx').2
  · intro h
    exact ⟨0, _, inForce_snoc.mpr (.inr ⟨rfl, rfl, hassigned⟩), hcovers.mpr ⟨rfl, h⟩, by decide⟩

end Sample

/-- The narrower assignment stays in force within the range, and behind it nothing changes. -/
theorem Engine.setContextRange_covers_wide :
    let engine := Sample.jumpAfter [Sample.narrowCode]
    engine.context = (Context.ofFields Sample.language.contextFields).performAll [Sample.narrowCode] ∧
      Sample.language.contextFields.find? (·.name == "wide") = some ⟨"wide", 1, 0⟩ ∧
      ContextField.fits ⟨"wide", 1, 0⟩ 1 = true ∧ 0x20 ≤ engine.language.codeSpace.highest ∧
      ∃ next, engine.setContextRange "wide" 0x20 0x30 1 = .ok next ∧
        next.contextValue "wide" 0x23 = .ok 1 ∧ next.contextValue "wide" 0x24 = engine.contextValue "wide" 0x24 ∧
        next.contextValue "wide" 0x30 = engine.contextValue "wide" 0x30 := by
  intro engine
  have declared : Sample.language.contextFields.find? (·.name == "wide") = some ⟨"wide", 1, 0⟩ := by rfl
  have fitting : ContextField.fits ⟨"wide", 1, 0⟩ 1 = true := by decide +kernel
  have inside : 0x20 ≤ engine.language.codeSpace.highest := by decide +kernel
  obtain ⟨hsucceeds, -, -, -, hcovers⟩ :=
    setContextRange_covers engine _ [Sample.narrowCode] rfl "wide" _ declared 0x20 0x30 1 fitting inside
  obtain ⟨next, hnext⟩ := hsucceeds.mpr (by decide +kernel)
  have hcount : (engine.language.codeSpace.wrap 0x30).toNat - (0x20 : UInt64).toNat = 0x10 := by decide +kernel
  obtain ⟨hassigned, hkept, -⟩ := hcovers next hnext
  rw [hcount] at hassigned hkept
  have hwide : ¬ NarrowerAt "wide" _ 0x10 (engine.language.codeAddress 0x23) :=
    (Sample.narrowerAt_narrowCode 0x23).not.mpr (by decide +kernel)
  have hnarrow : NarrowerAt "wide" _ 0x10 (engine.language.codeAddress 0x24) :=
    (Sample.narrowerAt_narrowCode 0x24).mpr (by decide +kernel)
  exact ⟨rfl, declared, fitting, inside, next, hnext,
    hassigned 0x23 (by decide +kernel) (by decide) (by decide +kernel) hwide,
    hkept 0x24 (by decide +kernel) (.inr (.inr hnarrow)),
    hkept 0x30 (by decide +kernel) (.inr (.inl (by decide +kernel)))⟩

/-- The end behind the last offset is wrapped to 0, so the range up to the end of the space is refused. One further
    on is wrapped into the space, so the range is shorter than it was asked for. -/
theorem Engine.wide_ends_wrapped :
    let engine := Sample.jumpAfter []
    Sample.language.contextFields.find? (·.name == "wide") = some ⟨"wide", 1, 0⟩ ∧
      ContextField.fits ⟨"wide", 1, 0⟩ 1 = true ∧ 0xff00 ≤ engine.language.codeSpace.highest ∧
      (0x10000 : UInt64).toNat = engine.language.codeSpace.highest.toNat + 1 ∧
      engine.setContextRange "wide" 0xff00 0x10000 1 = .error (.invalidRange "wide") ∧
      (engine.setContextRange "wide" 0x10 0x10020 1).bind (·.contextValue "wide" 0x1f) = .ok 1 ∧
      (engine.setContextRange "wide" 0x10 0x10020 1).bind (·.contextValue "wide" 0x20) = .ok 0 :=
  ⟨rfl, by decide +kernel, by decide +kernel, by decide +kernel,
    setContextRange_refuses (by decide +kernel) (by decide +kernel), by decide +kernel, by decide +kernel⟩

end Lifter
