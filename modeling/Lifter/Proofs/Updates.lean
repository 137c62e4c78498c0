/-
  Lifter.Proofs.Updates — contexts that are changed in place.

  A context that is kept in one place is changed step by step: an operation looks up its
  field, checks the value, takes a serial number and writes to the slot of the field.
  What it has changed before it fails stays changed (`Update`). But none of them fails
  behind its first change, so an operation leaves what `ContextOp.apply` answers, or an
  error and the context as it was (`carryOut_on`).

  An operation that succeeds is about one field. All others keep their defaults and their
  values, at every address of every space. An assignment changes nothing outside its
  range, and gives its value to the offsets inside, but where the field has a region over
  fewer of them (`Context.updates_atomic`).
-/

import Lifter.Proofs.CodeRanges

namespace Lifter

open Specification

/-! ## Step by step -/

/-- Steps on a context, whose changes stay even if a later one fails. -/
abbrev Update (α : Type) := ExceptT ContextError (StateM Context) α

namespace Update

/-- The answer of the steps, and the context that they leave. -/
def on {α : Type} (u : Update α) (c : Context) : Except ContextError α × Context := u.run.run c

def lookup (name : String) : Update ContextSlot := do
  match (← get).slot? name with
  | none => throw (.unknownVariable name)
  | some s => return s

/-- The slot of a field into which the value fits. -/
def lookupFor (name : String) (value : UInt32) : Update ContextSlot := do
  let s ← lookup name
  if s.field.fits value then return s else throw (.valueOutOfRange name value s.field.width)

/-- The next serial number, which is not given again. -/
def takeSerial : Update Nat := do
  let c ← get
  set { c with nextSerial := c.nextSerial + 1 }
  return c.nextSerial

def write (name : String) (f : ContextSlot → ContextSlot) : Update Unit :=
  modify fun c => { c with slots := Context.updateSlots name f c.slots }

def assign (name : String) (space : SpaceId) (first last : UInt64) (value : UInt32) : Update Unit := do
  let _ ← lookupFor name value
  let serial ← takeSerial
  write name fun s => { s with regions := Region.place ⟨space, first, last, value, serial⟩ s.regions }

end Update

def ContextOp.carryOut : ContextOp → Update Unit
  | .setDefault name value => do
    let _ ← Update.lookupFor name value
    Update.write name fun s => { s with field := { s.field with default := value } }
  | .setFrom name a value => Update.assign name a.space.id a.offset a.space.highest value
  | .setRange name a b value =>
    if a.space.id = b.space.id ∧ a.offset < b.offset then
      Update.assign name a.space.id a.offset (b.offset - 1) value
    else throw (.invalidRange name)
  | .clear name => do
    let _ ← Update.lookup name
    Update.write name fun s => { s with regions := [] }

namespace Update

variable {α β : Type} {c : Context} {name : String} {value : UInt32}

theorem on_bind (u : Update α) (f : α → Update β) (c : Context) :
    (u >>= f).on c = match u.on c with
      | (.ok a, next) => (f a).on next
      | (.error err, next) => (.error err, next) := by
  show (u >>= f) c = match u c with
    | (.ok a, next) => (f a).on next
    | (.error err, next) => (.error err, next)
  simp only [bind, ExceptT.bind, ExceptT.mk, StateT.bind]
  rcases u c with ⟨_ | a, next⟩
  · rfl
  · rfl

theorem lookup_on : (lookup name).on c = (c.lookup name, c) := by
  unfold Context.lookup
  show (match c.slot? name with
    | none => throw (.unknownVariable name)
    | some s => return s : Update ContextSlot).on c = _
  cases c.slot? name <;> rfl

theorem lookupFor_on : (lookupFor name value).on c = (c.lookupFor name value, c) := by
  unfold lookupFor Context.lookupFor
  rw [on_bind, lookup_on]
  cases c.lookup name with
  | error err => rfl
  | ok s =>
    by_cases h : s.field.fits value = true
    · simp only [h, if_true]
      rfl
    · simp only [h]
      rfl

/-- The context behind an operation that has this answer. -/
def settled (c : Context) : Except ContextError Context → Except ContextError Unit × Context
  | .ok next => (.ok (), next)
  | .error err => (.error err, c)

theorem assign_on {space : SpaceId} {first last : UInt64} :
    (assign name space first last value).on c = settled c (c.assign name space first last value) := by
  unfold assign Context.assign
  rw [on_bind, lookupFor_on]
  cases c.lookupFor name value <;> rfl

end Update

/-- An operation in place leaves the context that it answers, or fails and leaves the one it was given. -/
theorem ContextOp.carryOut_on (op : ContextOp) (c : Context) : op.carryOut.on c = Update.settled c (op.apply c) := by
  cases op with
  | setDefault name value =>
    unfold carryOut apply Context.setDefault
    simp only [Update.on_bind, Update.lookupFor_on]
    cases c.lookupFor name value <;> rfl
  | setFrom name a value => exact Update.assign_on
  | setRange name a b value =>
    unfold carryOut apply Context.setRange
    by_cases h : a.space.id = b.space.id ∧ a.offset < b.offset
    · simp only [if_pos h]
      exact Update.assign_on
    · simp only [if_neg h]
      rfl
  | clear name =>
    unfold carryOut apply Context.clear
    simp only [Update.on_bind, Update.lookup_on]
    cases c.lookup name <;> rfl

/-! ## What changes -/

/-- A region of the field over fewer than `count` offsets covers `a`. -/
def Context.HasNarrower (c : Context) (name : String) (count : Nat) (a : Address) : Prop :=
  ∃ s, c.slot? name = some s ∧ ∃ r ∈ s.regions, r.covers a = true ∧ r.span.toNat + 1 < count

/-- The operation has changed nothing but its field, and that within the range it assigns to. -/
structure ContextOp.Local (op : ContextOp) (c next : Context) : Prop where
  others : ∀ other, other ≠ op.name → next.default other = c.default other ∧ ∀ a, next.get other a = c.get other a
  outside : ∀ x, op.assignment? = some x → ∀ a, ¬ x.Covers a → next.get op.name a = c.get op.name a
  inside : ∀ x, op.assignment? = some x → ∀ a, x.Covers a →
    (¬ c.HasNarrower op.name x.size a ∧ next.get op.name a = .ok x.value) ∨
      (c.HasNarrower op.name x.size a ∧ next.get op.name a = c.get op.name a)

/-- The regions that are kept cover an address as narrowly as the assignments in force. -/
theorem Holds.narrower_iff {log : List ContextOp} {f : ContextField} {s : ContextSlot} (h : Holds log f s)
    (count : Nat) (a : Address) :
    (∃ r ∈ s.regions, r.covers a = true ∧ r.span.toNat + 1 < count) ↔ NarrowerAt f.name log count a := by
  constructor
  · rintro ⟨r, hr, hcovers, hlt⟩
    obtain ⟨k, x, hx, rfl⟩ := h.regions.sound r hr
    rw [Region.covers_region] at hcovers
    rw [Region.span_region hcovers] at hlt
    exact ⟨k, x, hx, hcovers, hlt⟩
  · rintro ⟨k, x, hx, hcovers, hlt⟩
    obtain ⟨r, hr, hsame, -⟩ := h.regions.latest k x hx
    refine ⟨r, hr, ?_, ?_⟩
    · rw [Region.covers_eq hsame a, Region.covers_region]
      exact hcovers
    · rw [Region.span_eq hsame, Region.span_region hcovers]
      exact hlt

namespace Context

variable {c next : Context} {op : ContextOp} {name other : String}

theorem get_of_slot? (h : next.slot? name = c.slot? name) (a : Address) : next.get name a = c.get name a := by
  unfold get lookup
  rw [h]

theorem default_of_slot? (h : next.slot? name = c.slot? name) : next.default name = c.default name := by
  unfold default lookup
  rw [h]

/-- An operation leaves the slots of other fields alone. -/
theorem slot?_apply (hop : op.apply c = .ok next) (h : other ≠ op.name) : next.slot? other = c.slot? other := by
  obtain ⟨-, -, rfl⟩ := apply_eq_ok.mp hop
  have hname : ∀ s, (op.change c.nextSerial s).field.name = s.field.name := fun s => by rw [op.field_change]
  unfold slot?
  rw [find?_updateSlots hname, if_neg (Ne.symm h), Option.map_id]
  rfl

end Context

theorem Follows.local {fields : List ContextField} {log : List ContextOp} {c next : Context} {op : ContextOp}
    (h : Follows fields log c) (hop : op.apply c = .ok next) : op.Local c next := by
  obtain ⟨⟨s, hs, -⟩, -⟩ := Context.apply_eq_ok.mp hop
  obtain ⟨f, hf, hholds⟩ := h.holds_of_slot? hs
  obtain ⟨-, hname⟩ := find?_name hf
  have hnarrower : ∀ count a, c.HasNarrower op.name count a ↔ NarrowerAt op.name log count a := by
    intro count a
    rw [← hname, ← hholds.narrower_iff, hname, Context.HasNarrower, hs]
    simp only [Option.some.injEq, exists_eq_left']
  refine ⟨?_, ?_, ?_⟩
  · intro other hother
    have hslot := Context.slot?_apply hop hother
    exact ⟨Context.default_of_slot? hslot, Context.get_of_slot? hslot⟩
  · intro x hx a hcovers
    exact (h.get_of_assignment hf hop rfl hx a).2 (.inl hcovers)
  · intro x hx a hcovers
    obtain ⟨hassigned, hkept⟩ := h.get_of_assignment hf hop rfl hx a
    rw [hnarrower]
    by_cases hnarrow : NarrowerAt op.name log x.size a
    · exact .inr ⟨hnarrow, hkept (.inr hnarrow)⟩
    · exact .inl ⟨hnarrow, hassigned ⟨hcovers, hnarrow⟩⟩

/-- An operation on a context that is changed in place either fails and leaves the whole of it as it was, or changes
    one field, and the values of that only in the range it assigns to: there the field has the new value, or where it
    has a narrower region the value that it had. -/
theorem Context.updates_atomic (fields : List ContextField) (ops : List ContextOp) (op : ContextOp) :
    let c := (ofFields fields).performAll ops
    let (answer, next) := op.carryOut.on c
    answer = (op.apply c).map (fun _ => ()) ∧ next = c.perform op ∧
      (∀ err, answer = .error err → next = c) ∧ (answer = .ok () → op.Local c next) := by
  intro c
  rw [op.carryOut_on, perform]
  cases hop : op.apply c with
  | error err =>
    refine ⟨rfl, rfl, fun _ _ => rfl, ?_⟩
    intro h
    cases h
  | ok next =>
    refine ⟨rfl, rfl, ?_, fun _ => ?_⟩
    · intro err h
      cases h
    · exact (follows_performAll ops (Follows.ofFields fields)).local hop

/-- Behind a narrower assignment, one to sixteen offsets and a value that does not fit. -/
theorem Context.updates_atomic_wide :
    let c := (ofFields Sample.language.contextFields).performAll [Sample.narrowCode]
    let op := ContextOp.setRange "wide" (Sample.ram.address 0x20) (Sample.ram.address 0x30) 1
    let misfit := ContextOp.setFrom "wide" (Sample.ram.address 0x20) 2
    (op.carryOut.on c).1 = .ok () ∧ op.Local c (op.carryOut.on c).2 ∧
      (op.carryOut.on c).2.get "wide" (Sample.ram.address 0x23) = .ok 1 ∧
      (op.carryOut.on c).2.get "wide" (Sample.ram.address 0x24) = .ok 0 ∧
      (misfit.carryOut.on c).1 = .error (.valueOutOfRange "wide" 2 1) ∧ (misfit.carryOut.on c).2 = c := by
  intro c op misfit
  have hok : (op.carryOut.on c).1 = .ok () := by decide +kernel
  have hmisfit : (misfit.carryOut.on c).1 = .error (.valueOutOfRange "wide" 2 1) := by decide +kernel
  obtain ⟨-, -, -, hlocal⟩ := updates_atomic Sample.language.contextFields [Sample.narrowCode] op
  obtain ⟨-, -, hkept, -⟩ := updates_atomic Sample.language.contextFields [Sample.narrowCode] misfit
  exact ⟨hok, hlocal hok, by decide +kernel, by decide +kernel, hmisfit, hkept _ hmisfit⟩

end Lifter
