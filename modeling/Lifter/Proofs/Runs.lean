/-
  Lifter.Proofs.Runs — runs of bytes that meet, and runs inside of others.

  Two runs meet if advancing over the one that comes first in memory leads to the other
  (`LeadsTo`); the byte order of the space says which one comes first. `isContiguous`
  compares the end of that run with the other address in 64 bits, so it does not see
  that the lowest offset follows the highest: it is right unless the run ends past the
  highest offset and the other one begins where that leads (`contiguous_advance`). In a
  space of eight bytes words wrap as offsets do; in a smaller one a run that ends with
  the highest offset meets nothing (`contiguous_misses_lowest`).

  `containedBy` compares ends that do not wrap at all. A run inside of another one is
  shorter than 64 bits can count, so the distances that `overlap` counts with wrapping
  are the true ones, even where both runs go on past the last word
  (`contained_overlaps`).
-/

import Lifter.Proofs.Overlap

namespace Lifter.Address

variable {a b low : Address} {size lowSize otherSize : UInt64}

/-! ## Runs that meet -/

/-- Advancing over `size` bytes from `a` leads to `b`. -/
def LeadsTo (a : Address) (size : UInt64) (b : Address) : Prop := (a.advance size).same b = true

theorem leadsTo_iff (same : b.space = a.space) : a.LeadsTo size b ↔ a.space.wrap (a.offset + size) = b.offset := by
  unfold LeadsTo advance Address.same
  simp [same]

/-- In 64 bits the end of a run is the address that it leads to, unless the run ends past the highest offset. -/
theorem offset_add_eq_iff (same : b.space = a.space) :
    a.offset + size = b.offset ↔ a.LeadsTo size b ∧ a.offset + size ≤ a.space.highest := by
  rw [leadsTo_iff same]
  constructor
  · intro h
    have hinside : a.offset + size ≤ a.space.highest := by
      rw [h, ← same]
      exact b.offset_le
    exact ⟨(Space.wrap_of_le hinside).trans h, hinside⟩
  · intro h
    rw [← Space.wrap_of_le h.2, h.1]

/-- `met` tells whether the run of `size` bytes at `a` leads to `b`, unless it ends past the highest offset. -/
structure TellsEnd (met : Bool) (a : Address) (size : UInt64) (b : Address) : Prop where
  met_iff : met = true ↔ a.LeadsTo size b ∧ a.offset + size ≤ a.space.highest
  right_iff : (met = true ↔ a.LeadsTo size b) ↔ a.offset + size ≤ a.space.highest ∨ ¬a.LeadsTo size b
  right : 8 ≤ a.space.addressSize ∨ a.offset.toNat + size.toNat < a.space.extent →
    (met = true ↔ a.LeadsTo size b)

/-- A run ends inside the space if its end is there before it is a word, and always if every word is an offset. -/
theorem offset_add_le_highest (h : 8 ≤ a.space.addressSize ∨ a.offset.toNat + size.toNat < a.space.extent) :
    a.offset + size ≤ a.space.highest := by
  rw [le_highest_iff]
  rcases h with hwide | hend
  · rw [extent_of_wide hwide]
    exact (a.offset + size).toNat_lt
  · rw [UInt64.toNat_add]
    exact Nat.lt_of_le_of_lt (Nat.mod_le _ _) hend

theorem tellsEnd_of_iff (same : b.space = a.space) {met : Bool} (h : met = true ↔ a.offset + size = b.offset) :
    TellsEnd met a size b := by
  rw [offset_add_eq_iff same] at h
  refine ⟨h, ?_, ?_⟩
  · rw [h]
    by_cases hinside : a.offset + size ≤ a.space.highest
    · simp [hinside]
    · simp [hinside]
  · intro hend
    have hinside := offset_add_le_highest hend
    simp [h, hinside]

/-- Whether two runs of one space are contiguous is told by the end of the one that comes first: the high part in a
    big-endian space, the low part in a little-endian one. -/
theorem contiguous_advance (same : low.space = a.space) (size lowSize : UInt64) :
    (a.space.bigEndian = true → TellsEnd (a.isContiguous size low lowSize) a size low) ∧
      (a.space.bigEndian = false → TellsEnd (a.isContiguous size low lowSize) low lowSize a) := by
  constructor
  · intro hbig
    refine tellsEnd_of_iff same ?_
    unfold isContiguous
    simp [same, hbig]
  · intro hlittle
    refine tellsEnd_of_iff same.symm ?_
    unfold isContiguous
    simp [same, hlittle]

/-- In eight bytes the highest offset is followed by the lowest one. -/
theorem contiguous_advance_lowest :
    let s : Space := ⟨⟨1⟩, "ram", .processor, 8, 1, false⟩
    let a := s.address 0
    let low := s.address 0xfffffffffffffffe
    low.space = a.space ∧ a.isContiguous 2 low 2 = true ∧
      (a.space.bigEndian = true → TellsEnd (a.isContiguous 2 low 2) a 2 low) ∧
      (a.space.bigEndian = false → TellsEnd (a.isContiguous 2 low 2) low 2 a) := by
  intro s a low
  have same : low.space = a.space := rfl
  exact ⟨same, by decide +kernel, contiguous_advance same 2 2⟩

/-- In two bytes it is, too, but not if the end is counted in 64 bits. -/
theorem contiguous_misses_lowest :
    let s : Space := ⟨⟨1⟩, "ram", .processor, 2, 1, true⟩
    let a := s.address 0xfffe
    let low := s.address 0
    a.space.bigEndian = true ∧ a.advance 2 = low ∧ ¬(a.isContiguous 2 low 2 = true ↔ a.LeadsTo 2 low) := by
  intro s a low
  have hleads : a.LeadsTo 2 low := by
    show (a.advance 2).same low = true
    decide +kernel
  have hmissed : a.isContiguous 2 low 2 = false := by decide +kernel
  refine ⟨rfl, by decide +kernel, ?_⟩
  intro h
  rw [h.mpr hleads] at hmissed
  cases hmissed

/-! ## Runs inside of others -/

/-- Each of the `size` bytes from `a` is found in the `otherSize` bytes from `b`, as far from `b` as its offset says. -/
def LiesBytewise (a : Address) (size : UInt64) (b : Address) (otherSize : UInt64) : Prop :=
  ∀ skip < size, ∃ d, a.overlap skip b otherSize = some d ∧
    (d.toNat : Int) = a.offset.toNat - b.offset.toNat + skip.toNat ∧ d < otherSize

theorem containedBy_iff (same : b.space = a.space) :
    a.containedBy size b otherSize = true ↔ b.offset.toNat ≤ a.offset.toNat ∧
      a.offset.toNat + size.toNat ≤ b.offset.toNat + otherSize.toNat := by
  unfold containedBy
  simp [same, UInt64.le_iff_toNat_le]

/-- A distance that a word can hold is counted without wrapping. -/
theorem toNat_way_of_lt {skip : UInt64} (hle : b.offset.toNat ≤ a.offset.toNat)
    (hlt : a.offset.toNat - b.offset.toNat + skip.toNat < UInt64.size) :
    (b.way a skip).toNat = a.offset.toNat - b.offset.toNat + skip.toNat := by
  have hway : b.way a skip = a.offset - b.offset + skip := by
    unfold way
    rw [UInt64.sub_eq_add_neg, UInt64.sub_eq_add_neg, UInt64.add_assoc, UInt64.add_comm skip, UInt64.add_assoc]
  have hsub : (a.offset - b.offset).toNat = a.offset.toNat - b.offset.toNat :=
    UInt64.toNat_sub_of_le _ _ (UInt64.le_iff_toNat_le.mpr hle)
  rw [hway, UInt64.toNat_add, hsub]
  exact Nat.mod_eq_of_lt hlt

theorem LiesBytewise.of_containedBy (same : b.space = a.space) (bytes : a.space.isConstant = false)
    (h : a.containedBy size b otherSize = true) : LiesBytewise a size b otherSize := by
  obtain ⟨hbegin, hend⟩ := (containedBy_iff same).mp h
  intro skip hskip
  rw [UInt64.lt_iff_toNat_lt] at hskip
  have hother : otherSize.toNat < UInt64.size := otherSize.toNat_lt
  have hway : (b.way a skip).toNat = a.offset.toNat - b.offset.toNat + skip.toNat :=
    toNat_way_of_lt hbegin (by omega)
  have hinside : b.way a skip < otherSize := by
    rw [UInt64.lt_iff_toNat_lt, hway]
    omega
  exact ⟨b.way a skip, (overlap_eq_some same bytes).mpr ⟨rfl, hinside⟩, by omega, hinside⟩

/-- The places of the first and of the last byte say where the run begins and ends. -/
theorem LiesBytewise.containedBy (same : b.space = a.space) (hpos : 0 < size)
    (h : LiesBytewise a size b otherSize) : a.containedBy size b otherSize = true := by
  obtain ⟨first, -, hfirst, -⟩ := h 0 hpos
  have hlast := toNat_sub_one hpos
  obtain ⟨last, -, hoffset, hinside⟩ := h (size - 1) (by rw [UInt64.lt_iff_toNat_lt]; omega)
  rw [UInt64.lt_iff_toNat_lt] at hinside
  rw [containedBy_iff same]
  simp at hfirst
  omega

/-- In one space, and not that of the constants: the bytes of a run inside of another one have their places there, and
    only then if it has any. -/
theorem contained_overlaps (same : b.space = a.space) (bytes : a.space.isConstant = false)
    (size otherSize : UInt64) :
    (a.containedBy size b otherSize = true → LiesBytewise a size b otherSize) ∧
      (0 < size → LiesBytewise a size b otherSize → a.containedBy size b otherSize = true) :=
  ⟨LiesBytewise.of_containedBy same bytes, LiesBytewise.containedBy same⟩

/-- Both runs go on past the highest offset of eight bytes, and so does the byte of the inner one that is looked up. -/
theorem contained_overlaps_past :
    let s : Space := ⟨⟨1⟩, "ram", .processor, 8, 1, false⟩
    let a := s.address 0xfffffffffffffff8
    let b := s.address 0xfffffffffffffff0
    b.space = a.space ∧ a.space.isConstant = false ∧ a.containedBy 0x20 b 0x40 = true ∧
      LiesBytewise a 0x20 b 0x40 ∧ a.overlap 0x10 b 0x40 = some 0x18 := by
  intro s a b
  have bytes : a.space.isConstant = false := by decide
  have hcontained : a.containedBy 0x20 b 0x40 = true := by decide +kernel
  obtain ⟨hbytewise, -⟩ := contained_overlaps (a := a) (b := b) rfl bytes 0x20 0x40
  have hlies := hbytewise hcontained
  obtain ⟨d, hd, hplace, -⟩ := hlies 0x10 (by decide)
  have hoffsets : a.offset.toNat = 0xfffffffffffffff8 ∧ b.offset.toNat = 0xfffffffffffffff0 := by decide +kernel
  have hd' : d = 0x18 := by
    rw [← UInt64.toNat_inj]
    rw [hoffsets.1, hoffsets.2] at hplace
    simp at hplace ⊢
    omega
  exact ⟨rfl, bytes, hcontained, hlies, hd' ▸ hd⟩

end Lifter.Address
