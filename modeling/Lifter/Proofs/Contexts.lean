/-
  Lifter.Proofs.Contexts — contexts under any sequence of operations.

  An operation either succeeds or leaves the context as it was. Whatever is done to a
  context, it keeps its fields, under their names and in their order.
-/

import Lifter.Context
import Lifter.Proofs.Results

namespace Lifter

open Specification

inductive ContextOp where
  | setDefault (name : String) (value : UInt32)
  | setFrom (name : String) (a : Address) (value : UInt32)
  | setRange (name : String) (a b : Address) (value : UInt32)
  | clear (name : String)

def ContextOp.apply (c : Context) : ContextOp → Except ContextError Context
  | .setDefault name value => c.setDefault name value
  | .setFrom name a value => c.setFrom name a value
  | .setRange name a b value => c.setRange name a b value
  | .clear name => c.clear name

namespace Context

/-- The context after an operation; one that fails changes nothing. -/
def perform (c : Context) (op : ContextOp) : Context :=
  match op.apply c with
  | .ok next => next
  | .error _ => c

def performAll (c : Context) (ops : List ContextOp) : Context := ops.foldl perform c

/-! ## Names -/

theorem names_eq (c : Context) : c.names = c.slots.map (·.field.name) := by
  simp only [names, fields, List.map_map, Function.comp_def]

/-- What the change of a slot keeps, is the same of all slots. -/
theorem map_updateSlots {β : Type} {g : ContextSlot → β} {name : String} {f : ContextSlot → ContextSlot}
    (hf : ∀ s, g (f s) = g s) (slots : List ContextSlot) : (updateSlots name f slots).map g = slots.map g := by
  induction slots with
  | nil => rfl
  | cons s slots ih =>
    simp only [updateSlots]
    split
    · simp only [List.map_cons, hf]
    · simp only [List.map_cons, ih]

theorem names_assign {c next : Context} {name : String} {space : SpaceId} {first last : UInt64} {value : UInt32}
    (h : c.assign name space first last value = .ok next) : next.names = c.names := by
  obtain ⟨slot, -, rfl⟩ := map_eq_ok.mp h
  rw [names_eq, names_eq]
  refine map_updateSlots (fun _ => ?_) c.slots
  rfl

theorem names_apply {c next : Context} {op : ContextOp} (h : op.apply c = .ok next) : next.names = c.names := by
  cases op with
  | setDefault name value =>
    obtain ⟨slot, -, rfl⟩ := map_eq_ok.mp h
    rw [names_eq, names_eq]
    refine map_updateSlots (fun _ => ?_) c.slots
    rfl
  | setFrom name a value => exact names_assign h
  | setRange name a b value =>
    simp only [ContextOp.apply, setRange] at h
    split at h
    · exact names_assign h
    · cases h
  | clear name =>
    obtain ⟨slot, -, rfl⟩ := map_eq_ok.mp h
    rw [names_eq, names_eq]
    refine map_updateSlots (fun _ => ?_) c.slots
    rfl

theorem names_perform (c : Context) (op : ContextOp) : (c.perform op).names = c.names := by
  unfold perform
  split
  · exact names_apply ‹_›
  · rfl

theorem names_performAll (ops : List ContextOp) : ∀ c : Context, (c.performAll ops).names = c.names := by
  induction ops with
  | nil => intro c; rfl
  | cons op ops ih => intro c; exact (ih (c.perform op)).trans (c.names_perform op)

theorem names_ofFields (fields : List ContextField) : (ofFields fields).names = fields.map (·.name) := by
  rw [names_eq, ofFields, List.map_map]
  rfl

end Context

end Lifter
