/-
  Lifter.Proofs.History — context values read off the history.

  A context keeps one region for each range, whose value and serial number a later
  assignment to the same range replaces. The history keeps every operation that
  succeeded. `Resolves` says what value it gives a field at an address: of the
  assignments in force there, which are those not cleared since, the one to the fewest
  offsets, and of several such the latest; else the latest default. A context that
  `Follows` its history has this value, each operation keeps it so (`follows_apply`),
  and `get_resolves` says it of every context and all operations on it.
-/

import Lifter.Proofs.Contexts

namespace Lifter

open Specification

/-! ## The history -/

/-- A value for the offsets from `first` to `last` of a space. -/
structure Assignment where
  space : SpaceId
  first : UInt64
  last : UInt64
  value : UInt32

namespace Assignment

def Covers (x : Assignment) (a : Address) : Prop := x.space = a.space.id ∧ x.first ≤ a.offset ∧ a.offset ≤ x.last

/-- How many offsets have the value. -/
def size (x : Assignment) : Nat := x.last.toNat - x.first.toNat + 1

def region (x : Assignment) (serial : Nat) : Region := ⟨x.space, x.first, x.last, x.value, serial⟩

end Assignment

namespace ContextOp

/-- The field that an operation is about. -/
def name : ContextOp → String
  | .setDefault name _ | .setFrom name _ _ | .setRange name _ _ _ | .clear name => name

def value? : ContextOp → Option UInt32
  | .setDefault _ value | .setFrom _ _ value | .setRange _ _ _ value => some value
  | .clear _ => none

def assignment? : ContextOp → Option Assignment
  | .setFrom _ a value => some ⟨a.space.id, a.offset, a.space.highest, value⟩
  | .setRange _ a b value => some ⟨a.space.id, a.offset, b.offset - 1, value⟩
  | .setDefault _ _ | .clear _ => none

/-- The default that it gives the field. -/
def default? : ContextOp → Option UInt32
  | .setDefault _ value => some value
  | .setFrom _ _ _ | .setRange _ _ _ _ | .clear _ => none

/-- A range is in one space and not empty. -/
def hasRange : ContextOp → Bool
  | .setRange _ a b _ => decide (a.space.id = b.space.id ∧ a.offset < b.offset)
  | .setDefault _ _ | .setFrom _ _ _ | .clear _ => true

/-- The field is declared, the value fits in it and the range is one. -/
def isValid (fields : List ContextField) (op : ContextOp) : Bool :=
  match fields.find? (·.name == op.name) with
  | none => false
  | some f => op.value?.all f.fits && op.hasRange

end ContextOp

/-- Operation `k` of the history is the assignment `x` to the field, which was not cleared after it. -/
def InForce (name : String) (log : List ContextOp) (k : Nat) (x : Assignment) : Prop :=
  (∃ op, log[k]? = some op ∧ op.name = name ∧ op.assignment? = some x) ∧
    ∀ j, k < j → log[j]? ≠ some (.clear name)

/-- The latest default that the field was given. -/
def latestDefault? (name : String) (log : List ContextOp) : Option UInt32 :=
  ((log.filter (·.name == name)).filterMap (·.default?)).getLast?

/-- The value that the history gives a field with this declared default at `a`. -/
inductive Resolves (log : List ContextOp) (name : String) (a : Address) (declared : UInt32) : UInt32 → Prop
  | assigned {k : Nat} {x : Assignment} : InForce name log k x → x.Covers a →
      (∀ j y, InForce name log j y → y.Covers a → x.size < y.size ∨ x.size = y.size ∧ j ≤ k) →
      Resolves log name a declared x.value
  | default : (∀ k x, InForce name log k x → ¬ x.Covers a) →
      Resolves log name a declared ((latestDefault? name log).getD declared)

theorem InForce.unique {name : String} {log : List ContextOp} {k : Nat} {x y : Assignment} (h : InForce name log k x)
    (h' : InForce name log k y) : x = y := by
  obtain ⟨⟨op, hop, -, hx⟩, -⟩ := h
  obtain ⟨⟨op', hop', -, hy⟩, -⟩ := h'
  cases hop.symm.trans hop'
  exact Option.some.inj (hx.symm.trans hy)

/-- There is one such value. -/
theorem Resolves.unique {log : List ContextOp} {name : String} {a : Address} {declared v w : UInt32}
    (h : Resolves log name a declared v) (h' : Resolves log name a declared w) : v = w := by
  cases h with
  | @assigned k x hx hcovers hbest =>
    cases h' with
    | @assigned j y hy hcovers' hbest' =>
      have hk := hbest j y hy hcovers'
      have hj := hbest' k x hx hcovers
      have hjk : j = k := by omega
      subst hjk
      rw [hx.unique hy]
    | default hnone => exact absurd hcovers (hnone k x hx)
  | default hnone =>
    cases h' with
    | assigned hy hcovers => exact absurd hcovers (hnone _ _ hy)
    | default => rfl

/-- An operation more puts its own assignment in force and, unless it clears the field, leaves those before it. -/
theorem inForce_snoc {name : String} {log : List ContextOp} {op : ContextOp} {k : Nat} {x : Assignment} :
    InForce name (log ++ [op]) k x ↔
      (InForce name log k x ∧ op ≠ .clear name) ∨ (k = log.length ∧ op.name = name ∧ op.assignment? = some x) := by
  unfold InForce
  simp only [getElem?_append_singleton, ne_eq]
  constructor
  · rintro ⟨⟨op', hold | ⟨rfl, rfl⟩, hname, hx⟩, hclear⟩
    · have hk := (List.getElem?_eq_some_iff.mp hold).1
      exact .inl ⟨⟨⟨op', hold, hname, hx⟩, fun j hj hjc => hclear j hj (.inl hjc)⟩,
        fun hc => hclear log.length hk (.inr ⟨rfl, hc⟩)⟩
    · exact .inr ⟨rfl, hname, hx⟩
  · rintro (⟨⟨⟨op', hold, hname, hx⟩, hclear⟩, hc⟩ | ⟨rfl, hname, hx⟩)
    · refine ⟨⟨op', .inl hold, hname, hx⟩, ?_⟩
      rintro j hj (hjc | ⟨-, hjc⟩)
      · exact hclear j hj hjc
      · exact hc hjc
    · refine ⟨⟨op, .inr ⟨rfl, rfl⟩, hname, hx⟩, ?_⟩
      rintro j hj (hjc | ⟨rfl, -⟩)
      · have hbound := (List.getElem?_eq_some_iff.mp hjc).1
        omega
      · omega

theorem InForce.lt_length {name : String} {log : List ContextOp} {k : Nat} {x : Assignment}
    (h : InForce name log k x) : k < log.length := by
  obtain ⟨⟨op, hop, -⟩, -⟩ := h
  exact (List.getElem?_eq_some_iff.mp hop).1

theorem latestDefault?_snoc (name : String) (log : List ContextOp) (op : ContextOp) :
    latestDefault? name (log ++ [op]) =
      if op.name = name then op.default?.or (latestDefault? name log) else latestDefault? name log := by
  unfold latestDefault?
  by_cases h : op.name = name
  · cases hd : op.default? <;> simp [h, hd]
  · simp [h]

/-! ## Serial numbers -/

/-- How many of the first `k` operations are assignments. -/
def serialAt (log : List ContextOp) (k : Nat) : Nat := (log.take k).countP (·.assignment?.isSome)

theorem serialAt_snoc {log : List ContextOp} {k : Nat} (h : k ≤ log.length) (op : ContextOp) :
    serialAt (log ++ [op]) k = serialAt log k := by
  rw [serialAt, List.take_append_of_le_length h, serialAt]

theorem InForce.serialAt_snoc {name : String} {log : List ContextOp} {k : Nat} {x : Assignment}
    (h : InForce name log k x) (op : ContextOp) : serialAt (log ++ [op]) k = serialAt log k :=
  Lifter.serialAt_snoc (Nat.le_of_lt h.lt_length) op

theorem serialAt_length_snoc (log : List ContextOp) (op : ContextOp) :
    serialAt (log ++ [op]) (log ++ [op]).length =
      serialAt log log.length + if op.assignment?.isSome then 1 else 0 := by
  simp only [serialAt, List.take_length, List.countP_append, List.countP_singleton]

/-- Later assignments have higher numbers. -/
theorem InForce.serialAt_lt {name : String} {log : List ContextOp} {k j : Nat} {x : Assignment}
    (h : InForce name log k x) (hj : k < j) : serialAt log k < serialAt log j := by
  obtain ⟨⟨op, hop, -, hx⟩, -⟩ := h
  have hnext : serialAt log (k + 1) = serialAt log k + 1 := by
    simp [serialAt, List.take_add_one, hop, hx]
  have hmono : serialAt log (k + 1) ≤ serialAt log j :=
    (List.take_prefix_take_left hj).sublist.countP_le
  omega

/-! ## The winner -/

namespace Region

theorem beats_iff {r s : Region} :
    r.beats s = true ↔ r.span.toNat < s.span.toNat ∨ (r.span.toNat = s.span.toNat ∧ s.serial < r.serial) := by
  simp only [beats, Bool.or_eq_true, Bool.and_eq_true, decide_eq_true_eq, beq_iff_eq, UInt64.lt_iff_toNat_lt,
    ← UInt64.toNat_inj]

theorem winner?_eq_none {rs : List Region} : winner? rs = none ↔ rs = [] := by
  cases rs with
  | nil => simp [winner?]
  | cons r rs =>
    simp only [winner?]
    split <;> simp

/-- The winner is one of the regions, and none of them beats it. -/
theorem winner?_spec {rs : List Region} :
    ∀ {w : Region}, winner? rs = some w → w ∈ rs ∧ ∀ r ∈ rs, ¬ r.beats w = true := by
  induction rs with
  | nil => intro w h; cases h
  | cons r rs ih =>
    intro w h
    simp only [winner?] at h
    split at h
    · rename_i hnone
      cases h
      rw [winner?_eq_none] at hnone
      subst hnone
      refine ⟨List.mem_singleton.mpr rfl, fun s hs => ?_⟩
      rw [List.mem_singleton.mp hs, beats_iff]
      omega
    · rename_i v hv
      obtain ⟨hmem, hall⟩ := ih hv
      split at h
      · rename_i hbeats
        cases h
        refine ⟨List.mem_cons_of_mem _ hmem, fun s hs => ?_⟩
        rcases List.mem_cons.mp hs with rfl | hs
        · rw [beats_iff] at hbeats ⊢
          omega
        · exact hall s hs
      · rename_i hbeats
        cases h
        refine ⟨List.mem_cons_self, fun s hs => ?_⟩
        rcases List.mem_cons.mp hs with rfl | hs
        · rw [beats_iff]
          omega
        · have hsv := hall s hs
          rw [beats_iff] at hbeats hsv ⊢
          omega

theorem mem_place {r s : Region} {rs : List Region} (h : s ∈ place r rs) : s = r ∨ s ∈ rs := by
  induction rs with
  | nil => exact .inl (List.mem_singleton.mp h)
  | cons t rs ih =>
    simp only [place] at h
    split at h
    · rcases List.mem_cons.mp h with h | h
      · exact .inl h
      · exact .inr (List.mem_cons_of_mem _ h)
    · rcases List.mem_cons.mp h with rfl | h
      · exact .inr List.mem_cons_self
      · exact (ih h).imp_right (List.mem_cons_of_mem _)

theorem self_mem_place (r : Region) (rs : List Region) : r ∈ place r rs := by
  induction rs with
  | nil => exact List.mem_singleton.mpr rfl
  | cons t rs ih =>
    simp only [place]
    split
    · exact List.mem_cons_self
    · exact List.mem_cons_of_mem _ ih

/-- A region that is no longer there had the range of the one put in its place. -/
theorem mem_place_or {r s : Region} {rs : List Region} (h : s ∈ rs) : s ∈ place r rs ∨ s.sameRange r = true := by
  induction rs with
  | nil => cases h
  | cons t rs ih =>
    simp only [place]
    split
    · rename_i hsame
      rcases List.mem_cons.mp h with rfl | h
      · exact .inr hsame
      · exact .inl (List.mem_cons_of_mem _ h)
    · rcases List.mem_cons.mp h with rfl | h
      · exact .inl List.mem_cons_self
      · exact (ih h).imp_left (List.mem_cons_of_mem _)

theorem sameRange_iff {r s : Region} :
    r.sameRange s = true ↔ r.space = s.space ∧ r.first = s.first ∧ r.last = s.last := by
  simp [sameRange, and_assoc]

theorem covers_iff {r : Region} {a : Address} :
    r.covers a = true ↔ r.space = a.space.id ∧ r.first ≤ a.offset ∧ a.offset ≤ r.last := by
  simp only [covers, Bool.and_eq_true, beq_iff_eq, decide_eq_true_eq, and_assoc]

theorem covers_region {x : Assignment} {serial : Nat} {a : Address} :
    (x.region serial).covers a = true ↔ x.Covers a := covers_iff

/-- The ends do not cross where an offset lies between them. -/
theorem span_region {x : Assignment} {serial : Nat} {a : Address} (h : x.Covers a) :
    (x.region serial).span.toNat + 1 = x.size := by
  have hle : x.first ≤ x.last := UInt64.le_trans h.2.1 h.2.2
  rw [span, Assignment.region, UInt64.toNat_sub_of_le _ _ hle, Assignment.size]

theorem span_eq {r s : Region} (h : r.sameRange s = true) : r.span = s.span := by
  obtain ⟨-, hfirst, hlast⟩ := sameRange_iff.mp h
  rw [span, span, hfirst, hlast]

theorem covers_eq {r s : Region} (h : r.sameRange s = true) (a : Address) : r.covers a = s.covers a := by
  obtain ⟨hspace, hfirst, hlast⟩ := sameRange_iff.mp h
  rw [covers, covers, hspace, hfirst, hlast]

end Region

/-! ## What an operation does -/

namespace ContextOp

/-- The change to the slot of its field. -/
def change (op : ContextOp) (serial : Nat) (s : ContextSlot) : ContextSlot :=
  match op with
  | .setDefault _ value => { s with field := { s.field with default := value } }
  | .clear _ => { s with regions := [] }
  | .setFrom _ _ _ | .setRange _ _ _ _ =>
    match op.assignment? with
    | some x => { s with regions := (x.region serial).place s.regions }
    | none => s

theorem field_change (op : ContextOp) (serial : Nat) (s : ContextSlot) :
    (op.change serial s).field = { s.field with default := op.default?.getD s.field.default } := by
  cases op with
  | setDefault | setFrom | setRange | clear => rfl

end ContextOp

namespace Context

theorem lookup_eq_ok {c : Context} {name : String} {s : ContextSlot} : c.lookup name = .ok s ↔ c.slot? name = some s := by
  unfold lookup
  split <;> simp_all

theorem lookupFor_eq_ok {c : Context} {name : String} {value : UInt32} {s : ContextSlot} :
    c.lookupFor name value = .ok s ↔ c.slot? name = some s ∧ s.field.fits value = true := by
  unfold lookupFor lookup
  cases c.slot? name with
  | none => simp
  | some t =>
    by_cases h : t.field.fits value = true
    · simp only [h, if_true, Except.ok.injEq, Option.some.injEq]
      exact ⟨fun heq => ⟨heq, heq ▸ h⟩, fun heq => heq.1⟩
    · simp only [if_neg h, Option.some.injEq]
      exact ⟨fun heq => (by cases heq), fun heq => absurd (heq.1 ▸ heq.2) h⟩

/-- An assignment succeeds where its field is and its value fits, and puts its region into the slot. -/
theorem assign_eq_ok {c next : Context} {name : String} {x : Assignment} :
    c.assign name x.space x.first x.last x.value = .ok next ↔
      (∃ s, c.slot? name = some s ∧ s.field.fits x.value = true) ∧
        next = ⟨updateSlots name (fun s => { s with regions := (x.region c.nextSerial).place s.regions }) c.slots,
          c.nextSerial + 1⟩ := by
  simp only [assign, map_eq_ok, lookupFor_eq_ok]
  constructor
  · rintro ⟨s, hs, rfl⟩; exact ⟨⟨s, hs⟩, rfl⟩
  · rintro ⟨⟨s, hs⟩, rfl⟩; exact ⟨s, hs, rfl⟩

/-- An operation succeeds where its field is, if the value fits and the range is one; then it changes the slot
    of the field only, and counts if it is an assignment. -/
theorem apply_eq_ok {c next : Context} {op : ContextOp} :
    op.apply c = .ok next ↔
      (∃ s, c.slot? op.name = some s ∧ op.value?.all s.field.fits = true) ∧ op.hasRange = true ∧
        next = ⟨updateSlots op.name (op.change c.nextSerial) c.slots,
          c.nextSerial + if op.assignment?.isSome then 1 else 0⟩ := by
  cases op with
  | setDefault name value =>
    simp only [ContextOp.apply, setDefault, map_eq_ok, lookupFor_eq_ok]
    constructor
    · rintro ⟨s, hs, rfl⟩; exact ⟨⟨s, hs⟩, rfl, rfl⟩
    · rintro ⟨⟨s, hs⟩, -, rfl⟩; exact ⟨s, hs, rfl⟩
  | setFrom name a value =>
    exact (assign_eq_ok (x := ⟨a.space.id, a.offset, a.space.highest, value⟩)).trans
      (and_congr_right fun _ => ⟨fun h => ⟨rfl, h⟩, fun h => h.2⟩)
  | setRange name a b value =>
    simp only [ContextOp.apply, setRange]
    by_cases h : a.space.id = b.space.id ∧ a.offset < b.offset
    · rw [if_pos h]
      have hrange : (ContextOp.setRange name a b value).hasRange = true := decide_eq_true h
      rw [assign_eq_ok (x := ⟨a.space.id, a.offset, b.offset - 1, value⟩), hrange]
      exact and_congr_right fun _ => ⟨fun h => ⟨rfl, h⟩, fun h => h.2⟩
    · rw [if_neg h]
      have hrange : (ContextOp.setRange name a b value).hasRange = false := decide_eq_false h
      rw [hrange]
      exact ⟨fun herr => (by cases herr), fun hall => (by cases hall.2.1)⟩
  | clear name =>
    simp only [ContextOp.apply, clear, map_eq_ok, lookup_eq_ok]
    constructor
    · rintro ⟨s, hs, rfl⟩; exact ⟨⟨s, hs, rfl⟩, rfl, rfl⟩
    · rintro ⟨⟨s, hs, -⟩, -, rfl⟩; exact ⟨s, hs, rfl⟩

theorem find?_updateSlots {name other : String} {f : ContextSlot → ContextSlot}
    (hf : ∀ s, (f s).field.name = s.field.name) (slots : List ContextSlot) :
    (updateSlots name f slots).find? (·.field.name == other) =
      (slots.find? (·.field.name == other)).map (if name = other then f else id) := by
  induction slots with
  | nil => rfl
  | cons s slots ih =>
    simp only [updateSlots]
    by_cases hs : s.field.name = name
    · subst hs
      rw [if_pos (beq_self_eq_true _)]
      by_cases ho : s.field.name = other
      · simp [hf, ho]
      · simp [hf, ho]
    · rw [if_neg (by simpa using hs)]
      by_cases ho : s.field.name = other
      · have hne : name ≠ other := fun h => hs (ho.trans h.symm)
        simp [ho, hne]
      · simp [ho, ih]

end Context

/-! ## A context and its history -/

/-- The regions of a field are its assignments in force, of several to one range at least the latest. -/
structure Kept (log : List ContextOp) (name : String) (regions : List Region) : Prop where
  sound : ∀ r ∈ regions, ∃ k x, InForce name log k x ∧ r = x.region (serialAt log k)
  latest : ∀ k x, InForce name log k x →
    ∃ r ∈ regions, r.sameRange (x.region (serialAt log k)) = true ∧ serialAt log k ≤ r.serial

namespace Kept

variable {log : List ContextOp} {name : String} {regions : List Region} {op : ContextOp}

theorem empty (name : String) : Kept [] name [] :=
  ⟨fun r hr => (by cases hr), fun k _ hx => absurd hx.lt_length (Nat.not_lt_zero k)⟩

/-- What neither clears the field nor assigns to it leaves its regions. -/
theorem unrelated (h : Kept log name regions) (hclear : op ≠ .clear name)
    (hassign : op.name = name → op.assignment? = none) : Kept (log ++ [op]) name regions := by
  have hiff : ∀ k x, InForce name (log ++ [op]) k x ↔ InForce name log k x := fun k x => by
    rw [inForce_snoc]
    refine ⟨fun hx => ?_, fun hx => .inl ⟨hx, hclear⟩⟩
    rcases hx with ⟨hx, -⟩ | ⟨-, hname, hx⟩
    · exact hx
    · rw [hassign hname] at hx
      cases hx
  constructor
  · intro r hr
    obtain ⟨k, x, hx, rfl⟩ := h.sound r hr
    exact ⟨k, x, (hiff k x).mpr hx, by rw [hx.serialAt_snoc op]⟩
  · intro k x hx
    have hx := (hiff k x).mp hx
    rw [hx.serialAt_snoc op]
    exact h.latest k x hx

/-- An assignment takes the place of the one that has its range. -/
theorem assign (h : Kept log name regions) {x : Assignment} (hname : op.name = name)
    (hassign : op.assignment? = some x) :
    Kept (log ++ [op]) name ((x.region (serialAt log log.length)).place regions) := by
  have hclear : op ≠ .clear name := fun hc => by rw [hc] at hassign; cases hassign
  constructor
  · intro r hr
    rcases Region.mem_place hr with rfl | hr
    · exact ⟨log.length, x, inForce_snoc.mpr (.inr ⟨rfl, hname, hassign⟩), by rw [serialAt_snoc (Nat.le_refl _)]⟩
    · obtain ⟨k, y, hy, rfl⟩ := h.sound r hr
      exact ⟨k, y, inForce_snoc.mpr (.inl ⟨hy, hclear⟩), by rw [hy.serialAt_snoc op]⟩
  · intro k y hy
    rcases inForce_snoc.mp hy with ⟨hy, -⟩ | ⟨rfl, -, hy⟩
    · rw [hy.serialAt_snoc op]
      obtain ⟨r, hr, hsame, hle⟩ := h.latest k y hy
      rcases Region.mem_place_or hr with hr | hreplaced
      · exact ⟨r, hr, hsame, hle⟩
      · refine ⟨_, Region.self_mem_place _ _, ?_, Nat.le_of_lt (hy.serialAt_lt hy.lt_length)⟩
        rw [Region.sameRange_iff] at hsame hreplaced ⊢
        exact ⟨hreplaced.1.symm.trans hsame.1, hreplaced.2.1.symm.trans hsame.2.1,
          hreplaced.2.2.symm.trans hsame.2.2⟩
    · cases hassign.symm.trans hy
      rw [serialAt_snoc (Nat.le_refl _)]
      exact ⟨_, Region.self_mem_place _ _, Region.sameRange_iff.mpr ⟨rfl, rfl, rfl⟩, Nat.le_refl _⟩

theorem clear (log : List ContextOp) (name : String) : Kept (log ++ [.clear name]) name [] := by
  refine ⟨fun r hr => (by cases hr), fun k x hx => ?_⟩
  rcases inForce_snoc.mp hx with ⟨-, hc⟩ | ⟨-, -, hx⟩
  · exact absurd rfl hc
  · cases hx

end Kept

/-- The slot is that of the declared field, with the default and the regions that the history gives it. -/
structure Holds (log : List ContextOp) (f : ContextField) (s : ContextSlot) : Prop where
  field : s.field = { f with default := (latestDefault? f.name log).getD f.default }
  regions : Kept log f.name s.regions

namespace Holds

variable {log : List ContextOp} {f : ContextField} {s : ContextSlot} {op : ContextOp}

theorem unrelated (h : Holds log f s) (hop : op.name ≠ f.name) : Holds (log ++ [op]) f s := by
  refine ⟨?_, h.regions.unrelated (fun hc => hop (by rw [hc]; rfl)) fun hname => absurd hname hop⟩
  rw [latestDefault?_snoc, if_neg hop, h.field]

theorem change (h : Holds log f s) (hop : op.name = f.name) :
    Holds (log ++ [op]) f (op.change (serialAt log log.length) s) := by
  constructor
  · rw [ContextOp.field_change, h.field, latestDefault?_snoc, if_pos hop]
    cases op.default? with
    | none => rfl
    | some value => rfl
  · cases op with
    | setDefault name value => exact h.regions.unrelated (fun hc => by cases hc) fun _ => rfl
    | setFrom name a value => exact h.regions.assign hop rfl
    | setRange name a b value => exact h.regions.assign hop rfl
    | clear name =>
      obtain rfl : name = f.name := hop
      exact Kept.clear log f.name

theorem fits (h : Holds log f s) : s.field.fits = f.fits := by
  rw [h.field]
  rfl

/-- The regions are those in force, so the one that wins is the assignment that does. -/
theorem resolves (h : Holds log f s) (a : Address) : Resolves log f.name a f.default (s.resolve a) := by
  unfold ContextSlot.resolve
  cases hw : Region.winner? (s.regions.filter (·.covers a)) with
  | none =>
    rw [Option.map_none, Option.getD_none, h.field]
    refine .default fun k x hx hcovers => ?_
    obtain ⟨r, hr, hsame, -⟩ := h.regions.latest k x hx
    have hmem : r ∈ s.regions.filter (·.covers a) :=
      List.mem_filter.mpr ⟨hr, (Region.covers_eq hsame a).trans (Region.covers_region.mpr hcovers)⟩
    rw [Region.winner?_eq_none.mp hw] at hmem
    cases hmem
  | some w =>
    obtain ⟨hmem, hbest⟩ := Region.winner?_spec hw
    obtain ⟨hw, hcovers⟩ := List.mem_filter.mp hmem
    obtain ⟨k, x, hx, rfl⟩ := h.regions.sound w hw
    rw [Region.covers_region] at hcovers
    refine Resolves.assigned hx hcovers fun j y hy hy' => ?_
    obtain ⟨r, hr, hsame, hserial⟩ := h.regions.latest j y hy
    have hr := hbest r (List.mem_filter.mpr
      ⟨hr, (Region.covers_eq hsame a).trans (Region.covers_region.mpr hy')⟩)
    have hspan : (y.region (serialAt log j)).span.toNat + 1 = y.size := Region.span_region hy'
    have hspan' : (x.region (serialAt log k)).span.toNat + 1 = x.size := Region.span_region hcovers
    rw [Region.beats_iff, Region.span_eq hsame] at hr
    have horder : k < j → serialAt log k < serialAt log j := hx.serialAt_lt
    have hlast : (x.region (serialAt log k)).serial = serialAt log k := rfl
    omega

end Holds

/-- The context has the fields, each with what the history gives it. -/
structure Follows (fields : List ContextField) (log : List ContextOp) (c : Context) : Prop where
  serial : c.nextSerial = serialAt log log.length
  slots : ∀ name, Option.Rel (Holds log) (fields.find? (·.name == name)) (c.slot? name)

namespace Follows

variable {fields : List ContextField} {log : List ContextOp} {c next : Context} {op : ContextOp}

theorem ofFields (fields : List ContextField) : Follows fields [] (Context.ofFields fields) := by
  refine ⟨rfl, fun name => ?_⟩
  have hfind : (Context.ofFields fields).slot? name =
      (fields.find? (·.name == name)).map fun f => ⟨f, []⟩ := List.find?_map
  rw [hfind]
  cases fields.find? (·.name == name) with
  | none => exact .none
  | some f => exact .some ⟨rfl, Kept.empty f.name⟩

theorem holds_of_slot? (h : Follows fields log c) {name : String} {s : ContextSlot} (hs : c.slot? name = some s) :
    ∃ f, fields.find? (·.name == name) = some f ∧ Holds log f s := by
  have hslot := h.slots name
  rw [hs] at hslot
  generalize fields.find? (·.name == name) = f? at hslot
  cases hslot with
  | some hholds => exact ⟨_, rfl, hholds⟩

/-- Whether an operation succeeds is said by the fields, whatever was done before. -/
theorem succeeds_iff (h : Follows fields log c) (op : ContextOp) :
    (∃ next, op.apply c = .ok next) ↔ op.isValid fields = true := by
  have hok : (∃ next, op.apply c = .ok next) ↔
      (∃ s, c.slot? op.name = some s ∧ op.value?.all s.field.fits = true) ∧ op.hasRange = true := by
    simp only [Context.apply_eq_ok, exists_and_left, exists_eq, and_true]
  rw [hok, ContextOp.isValid]
  have hslot := h.slots op.name
  generalize c.slot? op.name = s? at hslot ⊢
  generalize fields.find? (·.name == op.name) = f? at hslot ⊢
  cases hslot with
  | none =>
    constructor
    · rintro ⟨⟨s, hs, -⟩, -⟩; cases hs
    · intro hfalse; cases hfalse
  | some hholds => simp [hholds.fits]

/-- An operation that succeeds is one more in the history. -/
theorem follows_apply (h : Follows fields log c) (hop : op.apply c = .ok next) :
    Follows fields (log ++ [op]) next := by
  obtain ⟨-, -, rfl⟩ := Context.apply_eq_ok.mp hop
  refine ⟨by rw [serialAt_length_snoc, h.serial], fun name => ?_⟩
  have hname : ∀ s, (op.change c.nextSerial s).field.name = s.field.name := fun s => by rw [op.field_change]
  have hslot := h.slots name
  unfold Context.slot? at hslot ⊢
  rw [Context.find?_updateSlots hname, h.serial]
  generalize c.slots.find? (·.field.name == name) = s? at hslot ⊢
  generalize hf : fields.find? (·.name == name) = f? at hslot ⊢
  cases hslot with
  | none => exact .none
  | some hholds =>
    obtain ⟨-, rfl⟩ := find?_name hf
    refine .some ?_
    split
    · rename_i hop; exact hholds.change hop
    · rename_i hop; exact hholds.unrelated hop

section Values

variable {name : String} {f : ContextField}

/-- A declared field has the value that the history gives it. -/
theorem exists_get (h : Follows fields log c) (hf : fields.find? (·.name == name) = some f) (a : Address) :
    ∃ v, c.get name a = .ok v ∧ Resolves log name a f.default v := by
  have hslot := h.slots name
  rw [hf] at hslot
  unfold Context.get Context.lookup
  generalize c.slot? name = s? at hslot ⊢
  cases hslot with
  | some hholds =>
    obtain ⟨-, rfl⟩ := find?_name hf
    exact ⟨_, rfl, hholds.resolves a⟩

theorem get_eq (h : Follows fields log c) (hf : fields.find? (·.name == name) = some f) {a : Address} {v : UInt32}
    (hv : Resolves log name a f.default v) : c.get name a = .ok v := by
  obtain ⟨w, hget, hw⟩ := h.exists_get hf a
  rw [hget, hw.unique hv]

/-- Other names have none. -/
theorem get_undeclared (h : Follows fields log c) (hf : fields.find? (·.name == name) = none) (a : Address) :
    c.get name a = .error (.unknownVariable name) := by
  have hslot := h.slots name
  rw [hf] at hslot
  unfold Context.get Context.lookup
  generalize c.slot? name = s? at hslot ⊢
  cases hslot with
  | none => rfl

end Values

end Follows

namespace Context

/-- Those of the operations that succeed, each on the context that the ones before it left. -/
def succeeded (c : Context) : List ContextOp → List ContextOp
  | [] => []
  | op :: ops =>
    match op.apply c with
    | .ok next => op :: next.succeeded ops
    | .error _ => c.succeeded ops

/-- What every operation that succeeds keeps, holds after all of them, with the history of those that did. -/
theorem performAll_induction {P : List ContextOp → Context → Prop} (ops : List ContextOp)
    (step : ∀ op ∈ ops, ∀ {log : List ContextOp} {c next : Context}, P log c → op.apply c = .ok next →
      P (log ++ [op]) next) :
    ∀ {log : List ContextOp} {c : Context}, P log c → P (log ++ c.succeeded ops) (c.performAll ops) := by
  induction ops with
  | nil => intro log c h; rw [succeeded, List.append_nil]; exact h
  | cons op ops ih =>
    intro log c h
    have hlater : ∀ op' ∈ ops, ∀ {log : List ContextOp} {c next : Context}, P log c → op'.apply c = .ok next →
        P (log ++ [op']) next := fun op' hop' => step op' (List.mem_cons_of_mem _ hop')
    rw [performAll, List.foldl_cons, perform, succeeded]
    cases hop : op.apply c with
    | ok next =>
      have hrun := ih hlater (step op List.mem_cons_self h hop)
      rw [List.append_assoc] at hrun
      exact hrun
    | error => exact ih hlater h

theorem follows_performAll {fields : List ContextField} (ops : List ContextOp) {log : List ContextOp} {c : Context}
    (h : Follows fields log c) : Follows fields (log ++ c.succeeded ops) (c.performAll ops) :=
  performAll_induction ops (fun _ _ _ _ _ h hop => h.follows_apply hop) h

theorem succeeded_eq {fields : List ContextField} (ops : List ContextOp) :
    ∀ {log : List ContextOp} {c : Context}, Follows fields log c →
      c.succeeded ops = ops.filter (·.isValid fields) := by
  induction ops with
  | nil => intro log c h; rfl
  | cons op ops ih =>
    intro log c h
    have hvalid := h.succeeds_iff op
    rw [succeeded]
    cases hop : op.apply c with
    | ok next =>
      rw [List.filter_cons_of_pos (hvalid.mp ⟨next, hop⟩)]
      exact congrArg (op :: ·) (ih (h.follows_apply hop))
    | error =>
      have hinvalid : ¬ op.isValid fields = true := fun h => by
        obtain ⟨next, hnext⟩ := hvalid.mpr h
        cases hop.symm.trans hnext
      rw [List.filter_cons_of_neg hinvalid]
      exact ih h

/-- Which operations succeed is settled by the declared fields. -/
theorem succeeded_eq_filter (fields : List ContextField) (ops : List ContextOp) :
    (ofFields fields).succeeded ops = ops.filter (·.isValid fields) :=
  succeeded_eq ops (Follows.ofFields fields)

/-- After any operations, successful or not, a declared field has the value that the successful ones give it,
    at every address; other names have none. -/
theorem get_resolves (fields : List ContextField) (ops : List ContextOp) (name : String) (a : Address) :
    (∀ v, ((ofFields fields).performAll ops).get name a = .ok v ↔
      ∃ f, fields.find? (·.name == name) = some f ∧
        Resolves ((ofFields fields).succeeded ops) name a f.default v) ∧
    (∀ err, ((ofFields fields).performAll ops).get name a = .error err ↔
      fields.find? (·.name == name) = none ∧ err = .unknownVariable name) := by
  have hslot := (follows_performAll ops (Follows.ofFields fields)).slots name
  rw [List.nil_append] at hslot
  unfold get lookup
  generalize ((ofFields fields).performAll ops).slot? name = s? at hslot ⊢
  generalize hf : fields.find? (·.name == name) = f? at hslot ⊢
  cases hslot with
  | none => simp [Except.map, eq_comm]
  | @some f s hholds =>
    obtain ⟨-, rfl⟩ := find?_name hf
    have hv := hholds.resolves a
    refine ⟨fun v => ⟨fun h => ?_, ?_⟩, fun err => ⟨fun h => (by cases h), fun h => (by cases h.1)⟩⟩
    · cases h
      exact ⟨f, rfl, hv⟩
    · rintro ⟨f', hf', hv'⟩
      cases hf'
      rw [hv'.unique hv]
      rfl

end Context

end Lifter
