/-
  Lifter.Proofs.Commuting — assignments that may be done in either order.

  Which of two assignments is the later one counts only where they compete: for one
  field, at an address that both cover, with ranges of one size. Two that never do are
  independent. The contexts that they leave in the one order and in the other are not
  the same, since serial numbers and the order of regions differ. But their histories
  differ in two neighbouring operations only, and every field has the same value by both
  (`ContextOp.Independent.resolves_swap`), also with more operations behind them. So the
  contexts cannot be told apart by any value, now or later
  (`Context.assignments_commute`).
-/

import Lifter.Proofs.CodeRanges

namespace Lifter

open Specification

/-- They are in different spaces, have no offset in common, or differ in the number of their offsets. -/
def Assignment.Apart (x y : Assignment) : Prop :=
  x.space ≠ y.space ∨ x.last < y.first ∨ y.last < x.first ∨ x.size ≠ y.size

/-- At one address they have ranges of different sizes. -/
theorem Assignment.Apart.size_ne {x y : Assignment} (h : x.Apart y) {a : Address} (hx : x.Covers a)
    (hy : y.Covers a) : x.size ≠ y.size := by
  obtain ⟨hspace, hfirst, hlast⟩ := hx
  obtain ⟨hspace', hfirst', hlast'⟩ := hy
  rcases h with hne | hbefore | hbehind | hsize
  · exact absurd (hspace.trans hspace'.symm) hne
  · rw [UInt64.lt_iff_toNat_lt] at hbefore
    rw [UInt64.le_iff_toNat_le] at hlast hfirst'
    omega
  · rw [UInt64.lt_iff_toNat_lt] at hbehind
    rw [UInt64.le_iff_toNat_le] at hfirst hlast'
    omega
  · exact hsize

/-- Neither operation can hide what the other assigns. -/
structure ContextOp.Independent (p q : ContextOp) : Prop where
  left : ∃ x, p.assignment? = some x
  right : ∃ y, q.assignment? = some y
  apart : p.name = q.name → ∀ x y, p.assignment? = some x → q.assignment? = some y → x.Apart y

/-! ## Neighbours in a history -/

/-- Where an operation stands once those at `n` and behind it are swapped. -/
def swapped (n k : Nat) : Nat := if k = n then n + 1 else if k = n + 1 then n else k

theorem swapped_swapped (n k : Nat) : swapped n (swapped n k) = k := by
  unfold swapped
  by_cases hk : k = n
  · simp [hk]
  · by_cases hk' : k = n + 1
    · simp [hk']
    · simp [hk, hk']

/-- Only the two change their order. -/
theorem swapped_lt {n k j : Nat} (h : j < k) : swapped n j < swapped n k ∨ j = n ∧ k = n + 1 := by
  unfold swapped
  split_ifs <;> omega

section Swapping

variable {before behind : List ContextOp} {p q : ContextOp} {name : String} {k : Nat} {x : Assignment}

theorem getElem?_swapped (k : Nat) :
    (before ++ q :: p :: behind)[swapped before.length k]? = (before ++ p :: q :: behind)[k]? := by
  unfold swapped
  by_cases hk : k = before.length
  · subst hk
    simp
  · by_cases hk' : k = before.length + 1
    · subst hk'
      simp
    · rw [if_neg hk, if_neg hk']
      rcases Nat.lt_or_ge k before.length with hlt | hge
      · rw [List.getElem?_append_left hlt, List.getElem?_append_left hlt]
      · obtain ⟨i, rfl⟩ := Nat.exists_eq_add_of_le (show before.length + 2 ≤ k by omega)
        rw [List.getElem?_append_right (by omega), List.getElem?_append_right (by omega), Nat.add_assoc,
          Nat.add_sub_cancel_left, Nat.add_comm 2 i]
        rfl

/-- An assignment is in force wherever it stands of the two, if the other one does not clear the field. -/
theorem InForce.swap (hclear : p ≠ .clear name) (h : InForce name (before ++ p :: q :: behind) k x) :
    InForce name (before ++ q :: p :: behind) (swapped before.length k) x := by
  obtain ⟨hop, hlater⟩ := h
  have hback : ∀ j, (before ++ q :: p :: behind)[j]? = (before ++ p :: q :: behind)[swapped before.length j]? := by
    intro j
    rw [← getElem?_swapped (swapped before.length j), swapped_swapped]
  refine ⟨?_, fun j hj => ?_⟩
  · rw [getElem?_swapped]
    exact hop
  · rw [hback]
    rcases Nat.lt_trichotomy (swapped before.length j) k with hlt | heq | hgt
    · -- an operation that was before it and is not any more, is the first of the two
      rcases swapped_lt hlt with hlt' | ⟨hfirst, -⟩
      · rw [swapped_swapped] at hlt'
        omega
      · rw [hfirst]
        simpa using hclear
    · have hsame := swapped_swapped before.length j
      rw [heq] at hsame
      omega
    · exact hlater _ hgt

theorem inForce_swap_iff (hp : p ≠ .clear name) (hq : q ≠ .clear name) :
    InForce name (before ++ q :: p :: behind) k x ↔
      InForce name (before ++ p :: q :: behind) (swapped before.length k) x := by
  constructor
  · exact InForce.swap hq
  · intro h
    have hback := InForce.swap hp h
    rwa [swapped_swapped] at hback

end Swapping

namespace ContextOp.Independent

variable {before behind : List ContextOp} {p q : ContextOp} {name : String} {a : Address}

theorem symm (h : p.Independent q) : q.Independent p := by
  refine ⟨h.right, h.left, fun hname x y hx hy => ?_⟩
  rcases h.apart hname.symm y x hy hx with hspace | hbefore | hbehind | hsize
  · exact .inl (Ne.symm hspace)
  · exact .inr (.inr (.inl hbefore))
  · exact .inr (.inl hbehind)
  · exact .inr (.inr (.inr (Ne.symm hsize)))

theorem ne_clear (h : p.Independent q) : p ≠ .clear name := by
  rintro rfl
  obtain ⟨x, hx⟩ := h.left
  cases hx

/-- Neither is a default. -/
theorem latestDefault?_swap (h : p.Independent q) :
    latestDefault? name (before ++ q :: p :: behind) = latestDefault? name (before ++ p :: q :: behind) := by
  have hnone : ∀ op : ContextOp, (∃ x, op.assignment? = some x) → op.default? = none := by
    rintro op ⟨x, hx⟩
    cases op with
    | setDefault | clear => cases hx
    | setFrom | setRange => rfl
  have hp := hnone p h.left
  have hq := hnone q h.right
  unfold latestDefault?
  by_cases hname : p.name = name <;> by_cases hname' : q.name = name <;> simp [hname, hname', hp, hq]

/-- Of two assignments in force that compete, the later one is so in either order. -/
theorem swapped_le (h : p.Independent q) {k j : Nat} {x y : Assignment}
    (hx : InForce name (before ++ p :: q :: behind) k x) (hy : InForce name (before ++ p :: q :: behind) j y)
    (hcovers : x.Covers a) (hcovers' : y.Covers a) (hsize : x.size = y.size) (hle : j ≤ k) :
    swapped before.length j ≤ swapped before.length k := by
  rcases Nat.eq_or_lt_of_le hle with heq | hlt
  · exact Nat.le_of_eq (congrArg _ heq)
  · rcases swapped_lt hlt with hlt' | ⟨hj, hk⟩
    · exact Nat.le_of_lt hlt'
    · subst hj
      subst hk
      obtain ⟨⟨op, hop, hname, hp⟩, -⟩ := hy
      obtain ⟨⟨op', hop', hname', hq⟩, -⟩ := hx
      obtain rfl : p = op := by simpa using hop
      obtain rfl : q = op' := by simpa using hop'
      have hne := (h.apart (hname.trans hname'.symm) y x hp hq).size_ne hcovers' hcovers
      exact absurd hsize.symm hne

/-- By both histories a field has the same value. -/
theorem resolves_swap (h : p.Independent q) {declared v : UInt32}
    (hv : Resolves (before ++ p :: q :: behind) name a declared v) :
    Resolves (before ++ q :: p :: behind) name a declared v := by
  have hiff : ∀ k x, InForce name (before ++ q :: p :: behind) k x ↔
      InForce name (before ++ p :: q :: behind) (swapped before.length k) x :=
    fun _ _ => inForce_swap_iff h.ne_clear h.symm.ne_clear
  cases hv with
  | default hnone =>
    rw [← h.latestDefault?_swap]
    exact .default fun k x hx => hnone _ x ((hiff k x).mp hx)
  | @assigned k x hx hcovers hbest =>
    refine .assigned (hx.swap h.ne_clear) hcovers fun j y hy hy' => ?_
    have hin := (hiff j y).mp hy
    rcases hbest _ y hin hy' with hlt | ⟨hsize, hle⟩
    · exact .inl hlt
    · have hle' := h.swapped_le hx hin hcovers hy' hsize hle
      rw [swapped_swapped] at hle'
      exact .inr ⟨hsize, hle'⟩

end ContextOp.Independent

/-! ## Either order -/

/-- Two contexts with such histories have the same values. -/
theorem Follows.get_swap {fields : List ContextField} {before behind : List ContextOp} {p q : ContextOp} {c d : Context}
    (h : p.Independent q) (hc : Follows fields (before ++ p :: q :: behind) c)
    (hd : Follows fields (before ++ q :: p :: behind) d) (name : String) (a : Address) : c.get name a = d.get name a := by
  cases hf : fields.find? (·.name == name) with
  | none => rw [hc.get_undeclared hf, hd.get_undeclared hf]
  | some f =>
    obtain ⟨v, hget, hv⟩ := hc.exists_get hf a
    rw [hget, hd.get_eq hf (h.resolves_swap hv)]

namespace Context

/-- Two independent assignments that succeed one after the other, succeed in the other order as well. Every field has
    then the same value at every address, and still has it after any operations that are done to both contexts. -/
theorem assignments_commute (fields : List ContextField) (ops : List ContextOp) (p q : ContextOp)
    (independent : p.Independent q) (d : Context)
    (done : (p.apply ((ofFields fields).performAll ops)).bind (ContextOp.apply · q) = .ok d) :
    ∃ d', (q.apply ((ofFields fields).performAll ops)).bind (ContextOp.apply · p) = .ok d' ∧
      ∀ further name a, (d.performAll further).get name a = (d'.performAll further).get name a := by
  have hc := follows_performAll ops (Follows.ofFields fields)
  obtain ⟨c₁, hp, hq⟩ := exceptBind_eq_ok.mp done
  have hc₁ := hc.follows_apply hp
  have hd := hc₁.follows_apply hq
  -- whether an operation succeeds does not depend on what was done before
  obtain ⟨c₂, hq'⟩ := (hc.succeeds_iff q).mpr ((hc₁.succeeds_iff q).mp ⟨d, hq⟩)
  have hc₂ := hc.follows_apply hq'
  obtain ⟨d', hp'⟩ := (hc₂.succeeds_iff p).mpr ((hc.succeeds_iff p).mp ⟨c₁, hp⟩)
  have hd' := hc₂.follows_apply hp'
  refine ⟨d', exceptBind_eq_ok.mpr ⟨c₂, hq', hp'⟩, fun further name a => ?_⟩
  have hfurther := follows_performAll further hd
  have hfurther' := follows_performAll further hd'
  rw [succeeded_eq further hd, List.append_assoc, List.append_assoc] at hfurther
  rw [succeeded_eq further hd', List.append_assoc, List.append_assoc] at hfurther'
  exact hfurther.get_swap independent hfurther' name a

end Context

namespace Sample

/-- To sixteen offsets, of which `narrowCode` has four. -/
def aroundCode : ContextOp := .setRange "wide" (ram.address 0x20) (ram.address 0x30) 1

theorem aroundCode_independent : aroundCode.Independent narrowCode := by
  refine ⟨⟨_, rfl⟩, ⟨_, rfl⟩, fun _ x y hx hy => ?_⟩
  cases hx
  cases hy
  exact .inr (.inr (.inr (by decide)))

end Sample

/-- The narrower one of two overlapping assignments wins in either order. -/
theorem Context.assignments_commute_nested :
    let c := (ofFields Sample.language.contextFields).performAll [.setDefault "wide" 1]
    let d : Context := ⟨[⟨⟨"wide", 1, 1⟩, [⟨⟨1⟩, 0x20, 0x2f, 1, 0⟩, ⟨⟨1⟩, 0x24, 0x27, 0, 1⟩]⟩], 2⟩
    Sample.aroundCode.Independent Sample.narrowCode ∧
      (Sample.aroundCode.apply c).bind (ContextOp.apply · Sample.narrowCode) = .ok d ∧
      d.get "wide" (Sample.ram.address 0x25) = .ok 0 ∧
      ∃ d', (Sample.narrowCode.apply c).bind (ContextOp.apply · Sample.aroundCode) = .ok d' ∧
        ∀ further name a, (d.performAll further).get name a = (d'.performAll further).get name a := by
  have hdone : (Sample.aroundCode.apply ((ofFields Sample.language.contextFields).performAll [.setDefault "wide" 1])).bind
      (ContextOp.apply · Sample.narrowCode) =
        .ok ⟨[⟨⟨"wide", 1, 1⟩, [⟨⟨1⟩, 0x20, 0x2f, 1, 0⟩, ⟨⟨1⟩, 0x24, 0x27, 0, 1⟩]⟩], 2⟩ := by rfl
  exact ⟨Sample.aroundCode_independent, hdone, by decide +kernel,
    assignments_commute _ _ _ _ Sample.aroundCode_independent _ hdone⟩

/-- With ranges of one size that overlap, the order counts. -/
example :
    let p : ContextOp := .setRange "wide" (Sample.ram.address 0x20) (Sample.ram.address 0x30) 1
    let q : ContextOp := .setRange "wide" (Sample.ram.address 0x28) (Sample.ram.address 0x38) 0
    let c := Context.ofFields Sample.language.contextFields
    (c.performAll [p, q]).get "wide" (Sample.ram.address 0x2c) = .ok 0 ∧
      (c.performAll [q, p]).get "wide" (Sample.ram.address 0x2c) = .ok 1 := by decide +kernel

end Lifter
