/-
  Lifter.Proofs.Regions — what a context store keeps true of its regions.

  A field has at most one region for each range and each region a serial number of its
  own, so of those that cover an address one is preferred to all the others. Every region
  is a range of offsets that its space has, and its value fits in the field. `Regular`
  says this of a slot and of a store; one operation keeps it (`Regular.apply`), and so does
  any run of them (`Context.stays_regular`). With the ranges of a slot its history is kept
  in sight: each was assigned since the field was last cleared, so there are at most as
  many regions as such ranges.
-/

import Lifter.Proofs.History
import Lifter.Proofs.Reading
import Mathlib.Data.Finset.Card

namespace Lifter

open Specification

/-! ## Ranges -/

/-- The offsets from `first` to `last` of a space. -/
structure OffsetRange where
  space : SpaceId
  first : UInt64
  last : UInt64
  deriving DecidableEq

/-- The range is not empty, and ends within a space of the list. -/
def OffsetRange.Within (g : OffsetRange) (spaces : List Space) : Prop :=
  ∃ s, spaces[g.space.index]? = some s ∧ g.first ≤ g.last ∧ g.last ≤ s.highest

/-- A range up to `b`, which is not included, has a last offset. -/
theorem closed_of_halfOpen {a b : UInt64} (h : a < b) : a ≤ b - 1 ∧ b - 1 ≤ b := by
  have hlast := toNat_sub_one h
  rw [UInt64.lt_iff_toNat_lt] at h
  rw [UInt64.le_iff_toNat_le, UInt64.le_iff_toNat_le]
  omega

def Region.range (r : Region) : OffsetRange := ⟨r.space, r.first, r.last⟩

def Assignment.range (x : Assignment) : OffsetRange := ⟨x.space, x.first, x.last⟩

namespace Region

variable {r s : Region} {rs : List Region}

theorem sameRange_iff_range : s.sameRange r = true ↔ s.range = r.range := by
  rw [sameRange_iff, range, range, OffsetRange.mk.injEq]

theorem map_range_place (r : Region) (rs : List Region) :
    (place r rs).map (·.range) =
      if r.range ∈ rs.map (·.range) then rs.map (·.range) else rs.map (·.range) ++ [r.range] := by
  induction rs with
  | nil => rfl
  | cons s rs ih =>
    simp only [place, sameRange_iff_range]
    by_cases hsame : s.range = r.range
    · simp [hsame]
    · simp only [if_neg hsame, List.map_cons, ih, List.mem_cons, Ne.symm hsame, false_or]
      split <;> rfl

/-- A range that is already there is not added. -/
theorem nodup_range_place (h : (rs.map (·.range)).Nodup) : ((place r rs).map (·.range)).Nodup := by
  rw [map_range_place]
  split
  · exact h
  · rename_i hnew
    exact List.nodup_append.mpr ⟨h, List.nodup_singleton _, fun a ha b hb => by
      rintro rfl
      exact hnew (List.mem_singleton.mp hb ▸ ha)⟩

/-- A new serial number is given to one region. -/
theorem nodup_serial_place (h : (rs.map (·.serial)).Nodup) (hnew : ∀ s ∈ rs, s.serial ≠ r.serial) :
    ((place r rs).map (·.serial)).Nodup := by
  induction rs with
  | nil => exact List.nodup_singleton _
  | cons s rs ih =>
    obtain ⟨hs, h⟩ := List.nodup_cons.mp h
    have hrest : ∀ t ∈ rs, t.serial ≠ r.serial := fun t ht => hnew t (List.mem_cons_of_mem _ ht)
    simp only [place]
    split
    · refine List.nodup_cons.mpr ⟨fun hmem => ?_, h⟩
      obtain ⟨t, ht, heq⟩ := List.mem_map.mp hmem
      exact hrest t ht heq
    · refine List.nodup_cons.mpr ⟨fun hmem => ?_, ih h hrest⟩
      obtain ⟨t, ht, heq⟩ := List.mem_map.mp hmem
      rcases mem_place ht with rfl | ht
      · exact hnew s List.mem_cons_self heq.symm
      · exact hs (heq ▸ List.mem_map_of_mem ht)

end Region

/-! ## Ranges in the history -/

namespace ContextOp

/-- The addresses that an operation is given. -/
def addresses : ContextOp → List Address
  | .setFrom _ a _ => [a]
  | .setRange _ a b _ => [a, b]
  | .setDefault _ _ | .clear _ => []

def clears (name : String) : ContextOp → Bool
  | .clear other => other == name
  | .setDefault _ _ | .setFrom _ _ _ | .setRange _ _ _ _ => false

/-- The range that it assigns a value to. -/
def range? (op : ContextOp) : Option OffsetRange := op.assignment?.map (·.range)

variable {op : ContextOp} {name : String}

theorem clears_eq_false (h : op.name ≠ name) : op.clears name = false := by
  cases op with
  | clear other => exact beq_eq_false_iff_ne.mpr h
  | setDefault | setFrom | setRange => rfl

/-- An assignment is to a range of offsets that the space has. -/
theorem assignment?_within {l : Language} (hw : l.WellFormed) (haddresses : ∀ a ∈ op.addresses, a.space ∈ l.spaces)
    (hrange : op.hasRange = true) {x : Assignment} (hx : op.assignment? = some x) : x.range.Within l.spaces := by
  cases op with
  | setDefault | clear => cases hx
  | setFrom name a value =>
    cases hx
    exact ⟨a.space, hw.getElem?_spaces (haddresses a List.mem_cons_self), a.offset_le, UInt64.le_refl _⟩
  | setRange name a b value =>
    cases hx
    obtain ⟨hspace, hlt⟩ := of_decide_eq_true hrange
    obtain ⟨hfirst, hlast⟩ := closed_of_halfOpen hlt
    have hb := hw.getElem?_spaces (haddresses b (List.mem_cons_of_mem _ List.mem_cons_self))
    rw [← hspace] at hb
    exact ⟨b.space, hb, hfirst, UInt64.le_trans hlast b.offset_le⟩

end ContextOp

/-- The ranges assigned to a field since it was last cleared, latest first. -/
def assignedRanges (name : String) (log : List ContextOp) : List OffsetRange :=
  ((log.reverse.takeWhile fun op => !op.clears name).filter (·.name == name)).filterMap (·.range?)

theorem assignedRanges_snoc (name : String) (log : List ContextOp) (op : ContextOp) :
    assignedRanges name (log ++ [op]) =
      if op.name = name then if op.clears name then [] else op.range?.toList ++ assignedRanges name log
      else assignedRanges name log := by
  by_cases hname : op.name = name
  · cases hclear : op.clears name with
    | true => simp [assignedRanges, hname, hclear]
    | false => cases hrange : op.range? <;> simp [assignedRanges, hname, hclear, hrange]
  · simp [assignedRanges, ContextOp.clears_eq_false hname, hname]

/-! ## Slots -/

theorem ContextField.fits_iff {f : ContextField} {value : UInt32} :
    f.fits value = true ↔ value.toNat < capacity f.width := by
  have hvalue : value.toNat < capacity 32 := value.toNat_lt
  rw [fits, decide_eq_true_iff]
  rcases Nat.le_total f.width 32 with h | h
  · rw [Nat.min_eq_left h]
  · rw [Nat.min_eq_right h]
    exact ⟨fun h' => Nat.lt_of_lt_of_le h' (capacity_mono h), fun _ => hvalue⟩

/-- What holds of the regions of a field, where serial numbers up to `nextSerial` were given and these ranges
    were assigned. -/
structure ContextSlot.Regular (spaces : List Space) (nextSerial : Nat) (assigned : List OffsetRange)
    (s : ContextSlot) : Prop where
  default_lt : s.field.default.toNat < capacity s.field.width
  ranges : (s.regions.map (·.range)).Nodup
  serials : (s.regions.map (·.serial)).Nodup
  serial_lt : ∀ r ∈ s.regions, r.serial < nextSerial
  within : ∀ r ∈ s.regions, r.range.Within spaces
  value_lt : ∀ r ∈ s.regions, r.value.toNat < capacity s.field.width
  assigned : ∀ r ∈ s.regions, r.range ∈ assigned

/-- The region applies at `a`, and none that applies there is preferred to it. -/
structure ContextSlot.Wins (s : ContextSlot) (a : Address) (w : Region) : Prop where
  mem : w ∈ s.regions
  covers : w.covers a = true
  best : ∀ r ∈ s.regions, r.covers a = true → ¬ r.beats w = true

namespace ContextSlot

variable {s : ContextSlot} {spaces : List Space} {nextSerial : Nat} {assigned : List OffsetRange} {a : Address}

/-- The value is that of a winner, or there is no region at `a`. -/
theorem resolve_cases (s : ContextSlot) (a : Address) :
    (∃ w, s.Wins a w ∧ s.resolve a = w.value) ∨
      (∀ r ∈ s.regions, ¬ r.covers a = true) ∧ s.resolve a = s.field.default := by
  unfold resolve
  cases hw : Region.winner? (s.regions.filter (·.covers a)) with
  | none =>
    refine .inr ⟨?_, rfl⟩
    rwa [Region.winner?_eq_none, List.filter_eq_nil_iff] at hw
  | some w =>
    obtain ⟨hmem, hbest⟩ := Region.winner?_spec hw
    obtain ⟨hmem, hcovers⟩ := List.mem_filter.mp hmem
    exact .inl ⟨w, ⟨hmem, hcovers, fun r hr hr' => hbest r (List.mem_filter.mpr ⟨hr, hr'⟩)⟩, rfl⟩

namespace Regular

/-- Of two winners neither beats the other, so they have one serial number. -/
theorem winner_unique (h : s.Regular spaces nextSerial assigned) {w w' : Region} (hw : s.Wins a w)
    (hw' : s.Wins a w') : w' = w := by
  have hbest := hw.best w' hw'.mem hw'.covers
  have hbest' := hw'.best w hw.mem hw.covers
  rw [Region.beats_iff] at hbest hbest'
  exact List.inj_on_of_nodup_map h.serials hw'.mem hw.mem (by omega)

theorem resolve_lt (h : s.Regular spaces nextSerial assigned) (a : Address) :
    (s.resolve a).toNat < capacity s.field.width := by
  rcases s.resolve_cases a with ⟨w, hw, heq⟩ | ⟨-, heq⟩
  · rw [heq]
    exact h.value_lt w hw.mem
  · rw [heq]
    exact h.default_lt

/-- There are no more regions than ranges. -/
theorem length_le (h : s.Regular spaces nextSerial assigned) : s.regions.length ≤ assigned.toFinset.card := by
  rw [← List.length_map (·.range), ← List.toFinset_card_of_nodup h.ranges]
  refine Finset.card_le_card fun g hg => ?_
  obtain ⟨r, hr, rfl⟩ := List.mem_map.mp (List.mem_toFinset.mp hg)
  exact List.mem_toFinset.mpr (h.assigned r hr)

/-- Without regions, only the default matters. -/
theorem of_regions_eq_nil (hdefault : s.field.default.toNat < capacity s.field.width) (h : s.regions = []) :
    s.Regular spaces nextSerial assigned := by
  constructor
  · exact hdefault
  all_goals simp [h]

/-- Serial numbers that others are given do not matter. -/
theorem mono (h : s.Regular spaces nextSerial assigned) {later : Nat} (hle : nextSerial ≤ later) :
    s.Regular spaces later assigned :=
  { h with serial_lt := fun r hr => Nat.lt_of_lt_of_le (h.serial_lt r hr) hle }

/-- One more assignment, with the next serial number. -/
theorem place (h : s.Regular spaces nextSerial assigned) {x : Assignment} (hvalue : s.field.fits x.value = true)
    (hwithin : x.range.Within spaces) :
    Regular spaces (nextSerial + 1) (x.range :: assigned)
      { s with regions := (x.region nextSerial).place s.regions } := by
  -- what is said of each region holds of the new one and of those that stay
  have heach : ∀ r ∈ (x.region nextSerial).place s.regions, r = x.region nextSerial ∨ r ∈ s.regions :=
    fun r hr => Region.mem_place hr
  refine ⟨h.default_lt, Region.nodup_range_place h.ranges,
    Region.nodup_serial_place h.serials fun r hr => Nat.ne_of_lt (h.serial_lt r hr), ?_, ?_, ?_, ?_⟩
  · intro r hr
    rcases heach r hr with rfl | hr
    · exact Nat.lt_succ_self _
    · exact Nat.lt_succ_of_lt (h.serial_lt r hr)
  · intro r hr
    rcases heach r hr with rfl | hr
    · exact hwithin
    · exact h.within r hr
  · intro r hr
    rcases heach r hr with rfl | hr
    · exact ContextField.fits_iff.mp hvalue
    · exact h.value_lt r hr
  · intro r hr
    rcases heach r hr with rfl | hr
    · exact List.mem_cons_self
    · exact List.mem_cons_of_mem _ (h.assigned r hr)

/-- What an operation makes of the slot of its field. -/
theorem change {name : String} {log : List ContextOp} {op : ContextOp}
    (h : s.Regular spaces nextSerial (assignedRanges name log)) (hname : op.name = name)
    (hvalue : op.value?.all s.field.fits = true)
    (hwithin : ∀ x, op.assignment? = some x → x.range.Within spaces) :
    (op.change nextSerial s).Regular spaces (nextSerial + if op.assignment?.isSome then 1 else 0)
      (assignedRanges name (log ++ [op])) := by
  rw [assignedRanges_snoc, if_pos hname]
  cases op with
  | setDefault name value => exact { h with default_lt := ContextField.fits_iff.mp hvalue }
  | setFrom name a value => exact h.place hvalue (hwithin _ rfl)
  | setRange name a b value => exact h.place hvalue (hwithin _ rfl)
  | clear name => exact of_regions_eq_nil h.default_lt rfl

end Regular

end ContextSlot

/-! ## Stores -/

namespace Context

/-- What holds of a store with these declared fields and this history. -/
structure Regular (spaces : List Space) (fields : List ContextField) (log : List ContextOp) (c : Context) : Prop where
  declared : c.fields.map (fun f => (f.name, f.width)) = fields.map fun f => (f.name, f.width)
  slots : ∀ s ∈ c.slots, s.Regular spaces c.nextSerial (assignedRanges s.field.name log)
  /-- Of several fields of one name only the first is ever assigned to. -/
  shadowed : c.slots.Pairwise fun s t => s.field.name = t.field.name → t.regions = []
  serial_le : c.nextSerial ≤ log.length

section Updating

variable {name : String} {f : ContextSlot → ContextSlot} {slots : List ContextSlot}

/-- A slot of the name that is not changed has another one of it before it. -/
theorem mem_updateSlots (h : slots.Pairwise fun s t => s.field.name = t.field.name → t.regions = []) {t : ContextSlot}
    (ht : t ∈ updateSlots name f slots) :
    (∃ s, slots.find? (·.field.name == name) = some s ∧ t = f s) ∨
      t ∈ slots ∧ (t.field.name = name → t.regions = []) := by
  induction slots with
  | nil => cases ht
  | cons s slots ih =>
    obtain ⟨hs, h⟩ := List.pairwise_cons.mp h
    simp only [updateSlots, beq_iff_eq] at ht
    split at ht
    · rename_i hname
      rcases List.mem_cons.mp ht with rfl | ht
      · exact .inl ⟨s, List.find?_cons_of_pos (beq_iff_eq.mpr hname), rfl⟩
      · exact .inr ⟨List.mem_cons_of_mem _ ht, fun ht' => hs t ht (hname.trans ht'.symm)⟩
    · rename_i hname
      rcases List.mem_cons.mp ht with rfl | ht
      · exact .inr ⟨List.mem_cons_self, fun ht' => absurd ht' hname⟩
      · rcases ih h ht with ⟨s', hs', rfl⟩ | ⟨ht, hnone⟩
        · exact .inl ⟨s', by rwa [List.find?_cons_of_neg (by simpa using hname)], rfl⟩
        · exact .inr ⟨List.mem_cons_of_mem _ ht, hnone⟩

theorem shadowed_updateSlots (hf : ∀ s, (f s).field.name = s.field.name)
    (h : slots.Pairwise fun s t => s.field.name = t.field.name → t.regions = []) :
    (updateSlots name f slots).Pairwise fun s t => s.field.name = t.field.name → t.regions = [] := by
  induction slots with
  | nil => exact .nil
  | cons s slots ih =>
    obtain ⟨hs, h⟩ := List.pairwise_cons.mp h
    simp only [updateSlots, beq_iff_eq]
    split
    · refine List.pairwise_cons.mpr ⟨fun t ht hname => hs t ht ?_, h⟩
      rw [← hname, hf]
    · rename_i hne
      refine List.pairwise_cons.mpr ⟨fun t ht hname => ?_, ih h⟩
      rcases mem_updateSlots h ht with ⟨s', hs', rfl⟩ | ⟨ht, -⟩
      · rw [hf] at hname
        exact absurd (hname.trans (find?_name hs').2) hne
      · exact hs t ht hname

end Updating

namespace Regular

variable {l : Language} {fields : List ContextField} {log : List ContextOp} {c next : Context} {op : ContextOp}

theorem ofFields (spaces : List Space) (h : ∀ f ∈ fields, f.default.toNat < capacity f.width) :
    (Context.ofFields fields).Regular spaces fields [] := by
  refine ⟨?_, fun s hs => ?_, ?_, Nat.le_refl _⟩
  · simp [Context.ofFields, Context.fields, Function.comp_def]
  · obtain ⟨f, hf, rfl⟩ := List.mem_map.mp hs
    exact .of_regions_eq_nil (h f hf) rfl
  · rw [Context.ofFields, List.pairwise_map]
    exact List.pairwise_of_forall fun _ _ _ => rfl

/-- An operation that succeeds keeps a store regular. -/
theorem apply (hw : l.WellFormed) (h : c.Regular l.spaces fields log) (hop : op.apply c = .ok next)
    (haddresses : ∀ a ∈ op.addresses, a.space ∈ l.spaces) : next.Regular l.spaces fields (log ++ [op]) := by
  obtain ⟨⟨s, hs, hvalue⟩, hrange, rfl⟩ := apply_eq_ok.mp hop
  have hfield : ∀ t, (op.change c.nextSerial t).field.name = t.field.name := fun t => by rw [op.field_change]
  refine ⟨?_, fun t ht => ?_, shadowed_updateSlots hfield h.shadowed, ?_⟩
  · rw [← h.declared, Context.fields, Context.fields, List.map_map, List.map_map]
    exact map_updateSlots (fun t => by simp [op.field_change]) c.slots
  · rcases mem_updateSlots h.shadowed ht with ⟨s', hs', rfl⟩ | ⟨ht, hshadowed⟩
    · cases hs.symm.trans hs'
      obtain ⟨hmem, hname⟩ := find?_name hs
      rw [hfield]
      exact (h.slots s hmem).change hname.symm hvalue fun x hx => op.assignment?_within hw haddresses hrange hx
    · by_cases hname : op.name = t.field.name
      · exact .of_regions_eq_nil (h.slots t ht).default_lt (hshadowed hname.symm)
      · rw [assignedRanges_snoc, if_neg hname]
        exact (h.slots t ht).mono (Nat.le_add_right _ _)
  · have hle := h.serial_le
    simp only [List.length_append, List.length_singleton]
    split <;> omega

end Regular

/-- After any operations at addresses of an accepted language, on fields whose defaults fit, a store is regular:
    so a look-up has one winner or finds no region, a field has no more regions than ranges were assigned to it
    since it was last cleared, and every value that is read fits in its field. -/
theorem stays_regular {root : Element} {l : Language} (accepted : Language.ofElement root = .ok l)
    (fields : List ContextField) (ops : List ContextOp)
    (defaults : ∀ f ∈ fields, f.default.toNat < capacity f.width)
    (addresses : ∀ op ∈ ops, ∀ a ∈ op.addresses, a.space ∈ l.spaces) :
    let log := (ofFields fields).succeeded ops
    let c := (ofFields fields).performAll ops
    c.Regular l.spaces fields log ∧
    (∀ s ∈ c.slots, s.regions.length ≤ (assignedRanges s.field.name log).toFinset.card ∧
      ∀ a, (∃ w, s.Wins a w ∧ (∀ w', s.Wins a w' → w' = w) ∧ s.resolve a = w.value) ∨
        (∀ r ∈ s.regions, ¬ r.covers a = true) ∧ s.resolve a = s.field.default) ∧
    ∀ name a v, c.get name a = .ok v →
      ∃ f, fields.find? (·.name == name) = some f ∧ v.toNat < capacity f.width := by
  intro log c
  have hw := ofElement_wellFormed accepted
  have hregular : c.Regular l.spaces fields log :=
    performAll_induction (P := Regular l.spaces fields) ops
      (fun op hmem _ _ _ h hop => h.apply hw hop (addresses op hmem)) (Regular.ofFields l.spaces defaults)
  refine ⟨hregular, fun s hs => ⟨(hregular.slots s hs).length_le, fun a => ?_⟩, fun name a v hget => ?_⟩
  · rcases s.resolve_cases a with ⟨w, hw, heq⟩ | hnone
    · exact .inl ⟨w, hw, fun w' hw' => (hregular.slots s hs).winner_unique hw hw', heq⟩
    · exact .inr hnone
  · obtain ⟨s, hs, rfl⟩ := map_eq_ok.mp hget
    rw [lookup_eq_ok] at hs
    obtain ⟨f, hf, hholds⟩ := (follows_performAll ops (Follows.ofFields fields)).holds_of_slot? hs
    have hlt := (hregular.slots s (List.mem_of_find?_eq_some hs)).resolve_lt a
    have hwidth : s.field.width = f.width := by rw [hholds.field]
    exact ⟨f, hf, hwidth ▸ hlt⟩

/-- The second assignment to all of `ram` takes the place of the first. -/
theorem stays_regular_wide :
    let fields := Sample.language.contextFields
    let ops : List ContextOp := [.setFrom "wide" (Sample.ram.address 0) 0,
      .setRange "wide" (Sample.ram.address 0) (Sample.ram.address 2) 0, .setFrom "wide" (Sample.ram.address 0) 1]
    let c := (ofFields fields).performAll ops
    Language.ofElement Sample.root = .ok Sample.language ∧ (∀ f ∈ fields, f.default.toNat < capacity f.width) ∧
      (∀ op ∈ ops, ∀ a ∈ op.addresses, a.space ∈ Sample.language.spaces) ∧
      c.slots = [⟨⟨"wide", 1, 0⟩, [⟨⟨1⟩, 0, 0xffff, 1, 2⟩, ⟨⟨1⟩, 0, 1, 0, 1⟩]⟩] ∧
      c.Regular Sample.language.spaces fields ((ofFields fields).succeeded ops) :=
  ⟨Sample.accepted, by decide, by decide, by rfl,
    (stays_regular Sample.accepted _ _ (by decide) (by decide)).1⟩

end Context

end Lifter
