/-
  Lifter.Proofs.RegisterIndex — registers found by an index of their names.

  The index of a store is exact if it has the name of every register at its position,
  and no other name (`Exact`). Then looking a name up in it finds what going through the
  registers finds (`Exact.register?_eq`). A store that is empty is exact, and stays so
  with every register that is added under a new name (`Exact.add`).
-/

import Lifter.Proofs.Results
import Lifter.RegisterStore

namespace Lifter.RegisterStore

open Specification

/-- The index has the name of every register at its position, and no other name. -/
def Exact (s : RegisterStore) : Prop :=
  ∀ name i, s.position? name = some i ↔ ∃ r : Register, s.registers[i]? = some r ∧ r.name = name

variable {s : RegisterStore}

theorem exact_empty : empty.Exact := by
  intro name i
  simp [empty, position?]

theorem position?_add (s : RegisterStore) (r : Register) (name : String) :
    (s.add r).position? name = if name = r.name then some s.registers.length else s.position? name := by
  rw [add, position?, List.lookup_cons, position?]
  by_cases h : name = r.name
  · rw [if_pos h, beq_iff_eq.mpr h]
  · rw [if_neg h, beq_false_of_ne h]

/-- What is found is one of the registers. -/
theorem mem_of_register? {name : String} {r : Register} (h : s.register? name = some r) : r ∈ s.registers := by
  obtain ⟨i, -, hi⟩ := Option.bind_eq_some_iff.mp h
  exact List.mem_of_getElem? hi

namespace Exact

/-- The index has a name just if a register has it. -/
theorem position?_eq_none (h : s.Exact) {name : String} :
    s.position? name = none ↔ ∀ r ∈ s.registers, r.name ≠ name := by
  rw [Option.eq_none_iff_forall_ne_some]
  constructor
  · intro hno r hr hname
    obtain ⟨i, hi⟩ := List.getElem?_of_mem hr
    exact hno i ((h name i).mpr ⟨r, hi, hname⟩)
  · intro hno i hi
    obtain ⟨r, hr, hname⟩ := (h name i).mp hi
    exact hno r (List.mem_of_getElem? hr) hname

/-- Looking a name up in the index finds what going through the registers finds. -/
theorem register?_eq (h : s.Exact) (name : String) : s.register? name = s.registers.find? (·.name == name) := by
  cases hfound : s.registers.find? (·.name == name) with
  | none =>
    have hno : s.position? name = none := by
      rw [h.position?_eq_none]
      simpa using List.find?_eq_none.mp hfound
    rw [register?, hno]
    rfl
  | some r =>
    obtain ⟨hmem, hname⟩ := find?_name hfound
    obtain ⟨i, hi⟩ := List.getElem?_of_mem hmem
    rw [register?, (h name i).mpr ⟨r, hi, hname⟩]
    exact hi

/-- A register is found by its name. -/
theorem register?_name (h : s.Exact) {r : Register} (hr : r ∈ s.registers) : s.register? r.name = some r := by
  obtain ⟨i, hi⟩ := List.getElem?_of_mem hr
  rw [register?, (h r.name i).mpr ⟨r, hi, rfl⟩]
  exact hi

/-- A register of a new name is found at the end, and the others where they were. -/
theorem add (h : s.Exact) {r : Register} (hnew : s.position? r.name = none) : (s.add r).Exact := by
  have hother := h.position?_eq_none.mp hnew
  intro name i
  show _ ↔ ∃ t : Register, (s.registers ++ [r])[i]? = some t ∧ t.name = name
  simp only [position?_add, getElem?_append_singleton]
  by_cases hname : name = r.name
  · subst hname
    rw [if_pos rfl, Option.some.injEq]
    constructor
    · rintro rfl
      exact ⟨r, .inr ⟨rfl, rfl⟩, rfl⟩
    · rintro ⟨t, hold | ⟨hi, -⟩, hsame⟩
      · exact absurd hsame (hother t (List.mem_of_getElem? hold))
      · exact hi.symm
  · rw [if_neg hname, h name i]
    constructor
    · rintro ⟨t, ht, hsame⟩
      exact ⟨t, .inl ht, hsame⟩
    · rintro ⟨t, hold | ⟨-, rfl⟩, hsame⟩
      · exact ⟨t, hold, hsame⟩
      · exact absurd hsame.symm hname

end Exact

end Lifter.RegisterStore
