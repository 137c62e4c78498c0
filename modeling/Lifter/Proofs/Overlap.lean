/-
  Lifter.Proofs.Overlap — where an address lies in a range of its space.

  A space goes round: behind its highest offset the lowest one follows, and an address
  that is advanced is wrapped to it. `distance` counts the bytes from one address to
  another that way. `overlap` counts them in 64 bits instead (`overlap_eq_some`), which
  is the distance but for a multiple of the extent of the space (`toNat_way`). So it
  finds a position exactly where the distance says as long as the count has not run past
  the extent, always in a space of eight bytes, and in any space while neither the
  address nor the range does (`overlap_around`). Past the end of a narrow space it finds
  nothing at the lowest offset (`overlap_misses_lowest`).
-/

import Lifter.Address
import Mathlib.Tactic.ByContra

namespace Lifter.Address

/-- How many bytes behind `b` the address `a` is, where the lowest offset follows the highest. -/
def distance (b a : Address) : Nat := (a.offset.toNat + b.space.extent - b.offset.toNat) % b.space.extent

/-- `overlap` finds the address `skip` bytes after `a` by its distance from `b`. -/
def OverlapsAround (a : Address) (skip : UInt64) (b : Address) (size : UInt64) : Prop :=
  ∀ d : UInt64, a.overlap skip b size = some d ↔ d.toNat = b.distance (a.advance skip) ∧ d < size

/-- The way from `b` to the address `skip` bytes after `a`, in 64 bits. -/
def way (b a : Address) (skip : UInt64) : UInt64 := a.offset + skip - b.offset

variable {a b : Address} {skip size : UInt64}

theorem offset_lt_extent (a : Address) : a.offset.toNat < a.space.extent := by
  have hle := UInt64.le_iff_toNat_le.mp a.offset_le
  have hpos := a.space.extent_pos
  rw [Space.toNat_highest] at hle
  omega

/-- An address in the space is its own offset, and no other word is. -/
theorem le_highest_iff {s : Space} {w : UInt64} : w ≤ s.highest ↔ w.toNat < s.extent := by
  have hpos := s.extent_pos
  rw [UInt64.le_iff_toNat_le, Space.toNat_highest]
  omega

section OneSpace

variable (same : b.space = a.space)
include same

/-- The way in 64 bits is the distance, but for so many times round the space. -/
theorem toNat_way (skip : UInt64) : (b.way a skip).toNat % a.space.extent = b.distance (a.advance skip) := by
  have hb : b.offset.toNat < a.space.extent := same ▸ b.offset_lt_extent
  obtain ⟨rounds, hrounds⟩ := a.space.extent_dvd
  cases rounds with
  | zero => cases hrounds
  | succ more =>
    have hsplit : UInt64.size - b.offset.toNat + (a.offset + skip).toNat =
        (a.offset + skip).toNat + (a.space.extent - b.offset.toNat) + a.space.extent * more := by
      rw [hrounds, Nat.mul_succ]
      omega
    have hway : (b.way a skip).toNat % a.space.extent =
        (UInt64.size - b.offset.toNat + (a.offset + skip).toNat) % a.space.extent := by
      unfold way
      rw [UInt64.toNat_sub]
      exact Nat.mod_mod_of_dvd _ a.space.extent_dvd
    unfold distance advance
    rw [hway, hsplit, Nat.add_mul_mod_self_left, same, offset_address, Space.toNat_wrap,
      Nat.add_sub_assoc (Nat.le_of_lt hb), Nat.mod_add_mod]

variable (bytes : a.space.isConstant = false)
include bytes

theorem overlap_eq_some {d : UInt64} : a.overlap skip b size = some d ↔ d = b.way a skip ∧ d < size := by
  unfold overlap
  simp only [same, bytes, beq_self_eq_true, Bool.not_false, Bool.and_self, if_true, way]
  by_cases h : a.offset + skip - b.offset < size
  · simp only [h, if_true, Option.some.injEq]
    constructor
    · intro hd
      exact ⟨hd.symm, hd ▸ h⟩
    · intro hd
      exact hd.1.symm
  · simp only [h, if_false, reduceCtorEq, false_iff, not_and]
    intro hd
    rwa [hd]

/-- The count in 64 bits is right unless it has run past the extent of the space to a distance that is in the range. -/
theorem overlapsAround_iff :
    a.OverlapsAround skip b size ↔
      (b.way a skip).toNat < a.space.extent ∨ size.toNat ≤ b.distance (a.advance skip) := by
  have hway := toNat_way same skip
  unfold OverlapsAround
  simp only [overlap_eq_some same bytes]
  constructor
  · intro h
    by_contra hnot
    obtain ⟨hround, hfound⟩ := not_or.mp hnot
    have hlt := Nat.mod_lt (b.way a skip).toNat a.space.extent_pos
    have hsize := size.toNat_lt
    have hword : (UInt64.ofNat (b.distance (a.advance skip))).toNat = b.distance (a.advance skip) := by
      rw [UInt64.toNat_ofNat']
      omega
    obtain ⟨heq, -⟩ := (h _).mpr ⟨hword, UInt64.lt_iff_toNat_lt.mpr (by omega)⟩
    rw [heq] at hword
    omega
  · intro h d
    rw [UInt64.lt_iff_toNat_lt, ← UInt64.toNat_inj]
    rcases h with hnear | hoff
    · rw [Nat.mod_eq_of_lt hnear] at hway
      omega
    · have hle := Nat.mod_le (b.way a skip).toNat a.space.extent
      omega

/-- Advancing first makes a difference only if it wraps, and one of the two finds a position then. -/
theorem overlap_advance_iff :
    a.overlap skip b size = (a.advance skip).overlap 0 b size ↔
      a.offset + skip ≤ a.space.highest ∨
        a.overlap skip b size = none ∧ (a.advance skip).overlap 0 b size = none := by
  have hadvanced : b.way (a.advance skip) 0 = a.space.wrap (a.offset + skip) - b.offset := by
    unfold way advance
    simp
  constructor
  · intro h
    cases hfound : a.overlap skip b size with
    | none => exact .inr ⟨rfl, by rw [← h, hfound]⟩
    | some d =>
      rw [hfound] at h
      obtain ⟨hd, -⟩ := (overlap_eq_some same bytes).mp hfound
      obtain ⟨hd', -⟩ := (overlap_eq_some (a := a.advance skip) same bytes).mp h.symm
      have hwrap : a.space.wrap (a.offset + skip) = a.offset + skip := by
        rw [hd, hadvanced] at hd'
        exact (UInt64.sub_left_inj b.offset).mp hd'.symm
      exact .inl (hwrap ▸ a.space.wrap_le_highest _)
  · intro h
    rcases h with hinside | ⟨hnone, hnone'⟩
    · have hsame : b.way (a.advance skip) 0 = b.way a skip := by
        rw [hadvanced, Space.wrap_of_le hinside]
        rfl
      apply Option.ext
      intro d
      rw [overlap_eq_some same bytes, overlap_eq_some (a := a.advance skip) same bytes, hsame]
    · rw [hnone, hnone']

end OneSpace

theorem extent_of_wide {s : Space} (wide : 8 ≤ s.addressSize) : s.extent = UInt64.size := by
  unfold Space.extent
  rw [Nat.min_eq_right (by omega)]
  rfl

/-- A range that ends in the space does not reach what comes before it, whichever way it is counted. -/
theorem way_of_inside (same : b.space = a.space) (hstep : a.offset.toNat + skip.toNat < a.space.extent)
    (hrange : b.offset.toNat + size.toNat ≤ a.space.extent) :
    (b.way a skip).toNat < a.space.extent ∨ size.toNat ≤ b.distance (a.advance skip) := by
  have hsize := Nat.le_of_dvd (by decide) a.space.extent_dvd
  have hword : (a.offset + skip).toNat = a.offset.toNat + skip.toNat := by
    rw [UInt64.toNat_add]
    exact Nat.mod_eq_of_lt (Nat.lt_of_lt_of_le hstep hsize)
  by_cases hbehind : b.offset.toNat ≤ a.offset.toNat + skip.toNat
  · left
    unfold way
    rw [UInt64.toNat_sub_of_le _ _ (by rw [UInt64.le_iff_toNat_le, hword]; exact hbehind), hword]
    omega
  · right
    have hb : b.offset.toNat < a.space.extent := same ▸ b.offset_lt_extent
    unfold distance advance
    rw [same, offset_address, Space.toNat_wrap, hword, Nat.mod_eq_of_lt hstep, Nat.mod_eq_of_lt (by omega)]
    omega

/-- In one space, and not that of the constants, `overlap` finds the position that the distance gives unless the count
    in 64 bits has run past the extent of the space to a distance in the range; and advancing first makes no difference
    unless it wraps. So both hold in every space of eight bytes, and in every other one where neither the address nor the
    range runs past the end. -/
theorem overlap_around (same : b.space = a.space) (bytes : a.space.isConstant = false) (skip size : UInt64) :
    (a.OverlapsAround skip b size ↔
      (b.way a skip).toNat < a.space.extent ∨ size.toNat ≤ b.distance (a.advance skip)) ∧
    (a.overlap skip b size = (a.advance skip).overlap 0 b size ↔
      a.offset + skip ≤ a.space.highest ∨
        a.overlap skip b size = none ∧ (a.advance skip).overlap 0 b size = none) ∧
    (8 ≤ a.space.addressSize ∨
        a.offset.toNat + skip.toNat < a.space.extent ∧ b.offset.toNat + size.toNat ≤ a.space.extent →
      a.OverlapsAround skip b size ∧ a.overlap skip b size = (a.advance skip).overlap 0 b size) := by
  refine ⟨overlapsAround_iff same bytes, overlap_advance_iff same bytes, ?_⟩
  rw [overlapsAround_iff same bytes, overlap_advance_iff same bytes, le_highest_iff]
  intro h
  rcases h with hwide | ⟨hstep, hrange⟩
  · rw [extent_of_wide hwide]
    exact ⟨.inl (b.way a skip).toNat_lt, .inl (a.offset + skip).toNat_lt⟩
  · refine ⟨way_of_inside same hstep hrange, .inl ?_⟩
    rw [UInt64.toNat_add]
    exact Nat.lt_of_le_of_lt (Nat.mod_le _ _) hstep

/-- The lowest offset follows the highest one in eight bytes. -/
theorem overlap_around_lowest :
    let s : Space := ⟨⟨1⟩, "ram", .processor, 8, 1, false⟩
    let a := s.address 0xffffffffffffffff
    let b := s.address 0xfffffffffffffffe
    b.space = a.space ∧ a.space.isConstant = false ∧ b.distance (a.advance 2) = 3 ∧ a.overlap 2 b 4 = some 3 ∧
      (a.advance 2).overlap 0 b 4 = some 3 := by
  intro s a b
  have bytes : a.space.isConstant = false := by decide
  obtain ⟨-, -, hwide⟩ := overlap_around (a := a) (b := b) rfl bytes 2 4
  obtain ⟨haround, hadvanced⟩ := hwide (.inl (by decide))
  have hdistance : b.distance (a.advance 2) = 3 := by decide +kernel
  have hfound : a.overlap 2 b 4 = some 3 := (haround 3).mpr ⟨hdistance.symm, by decide⟩
  exact ⟨rfl, bytes, hdistance, hfound, hadvanced ▸ hfound⟩

/-- In two bytes the address behind the highest offset is the lowest one, where the range begins; but the count in 64
    bits has gone on past the end. -/
theorem overlap_misses_lowest :
    let s : Space := ⟨⟨1⟩, "ram", .processor, 2, 1, false⟩
    let a := s.address 0xffff
    let b := s.address 0
    b.distance (a.advance 1) = 0 ∧ a.overlap 1 b 4 = none ∧ (a.advance 1).overlap 0 b 4 = some 0 ∧
      ¬a.OverlapsAround 1 b 4 := by
  intro s a b
  have hdistance : b.distance (a.advance 1) = 0 := by decide +kernel
  have hmissed : a.overlap 1 b 4 = none := by decide +kernel
  refine ⟨hdistance, hmissed, by decide +kernel, ?_⟩
  intro h
  have hfound := (h 0).mpr ⟨hdistance.symm, by decide⟩
  rw [hmissed] at hfound
  cases hfound

end Lifter.Address
