/-
  Lifter.Context — named bit fields that select between encodings.

  Every field has a default and may be given values over ranges of addresses. Where
  several ranges cover an address the narrowest wins, and among equally narrow ones
  the latest assignment. Assigning to a range that the field already has replaces its
  value and makes it the latest. A failed operation changes nothing.
-/

import Lifter.Address

namespace Lifter

structure ContextField where
  name : String
  width : Nat
  default : UInt32
  deriving DecidableEq, Repr

/-- A value has 32 bits, so it fits in any field that wide. -/
def ContextField.fits (f : ContextField) (value : UInt32) : Bool := value.toNat < capacity (min f.width 32)

inductive ContextError where
  | unknownVariable (name : String)
  | valueOutOfRange (name : String) (value : UInt32) (width : Nat)
  | invalidRange (name : String)
  deriving DecidableEq, Repr

def ContextError.message : ContextError → String
  | .unknownVariable name => s!"Unknown context variable: {name}"
  | .valueOutOfRange name value width =>
    s!"Value {Text.hexNat value.toNat} does not fit in {width}-bit context variable {name}"
  | .invalidRange name => s!"Invalid context range for {name}"

/-! ## Regions -/

/-- A value over the offsets from `first` to `last` of a space; a later assignment has a higher serial number.
    Words of 64 bits are enough for these, so that they may be numbers here: each takes a call of its own, and
    that many calls cannot be made. -/
structure Region where
  space : SpaceId
  first : UInt64
  last : UInt64
  value : UInt32
  serial : Nat
  deriving DecidableEq, Repr

namespace Region

def covers (r : Region) (a : Address) : Bool :=
  r.space == a.space.id && r.first ≤ a.offset && a.offset ≤ r.last

/-- One less than the number of offsets in the region. -/
def span (r : Region) : UInt64 := r.last - r.first

def sameRange (r s : Region) : Bool := r.space == s.space && r.first == s.first && r.last == s.last

/-- `r` is preferred to `s` where both apply. -/
def beats (r s : Region) : Bool := r.span < s.span || (r.span == s.span && s.serial < r.serial)

/-- The region that none of the others beats. -/
def winner? : List Region → Option Region
  | [] => none
  | r :: rs =>
    match winner? rs with
    | none => some r
    | some w => some (if w.beats r then w else r)

/-- Puts `r` in the place of the region with its range, or at the end. -/
def place (r : Region) : List Region → List Region
  | [] => [r]
  | s :: rs => if s.sameRange r then r :: rs else s :: place r rs

end Region

/-! ## The store -/

/-- A field and its regions. -/
structure ContextSlot where
  field : ContextField
  regions : List Region
  deriving DecidableEq, Repr

def ContextSlot.resolve (s : ContextSlot) (a : Address) : UInt32 :=
  ((Region.winner? (s.regions.filter (·.covers a))).map (·.value)).getD s.field.default

structure Context where
  slots : List ContextSlot
  /-- One for each assignment that succeeded; it cannot run over, as a serial number cannot. -/
  nextSerial : Nat
  deriving DecidableEq, Repr

namespace Context

def ofFields (fields : List ContextField) : Context := ⟨fields.map (⟨·, []⟩), 0⟩

def fields (c : Context) : List ContextField := c.slots.map (·.field)

def names (c : Context) : List String := c.fields.map (·.name)

def slot? (c : Context) (name : String) : Option ContextSlot := c.slots.find? (·.field.name == name)

/-- Changes the first slot of that name. -/
def updateSlots (name : String) (f : ContextSlot → ContextSlot) : List ContextSlot → List ContextSlot
  | [] => []
  | s :: ss => if s.field.name == name then f s :: ss else s :: updateSlots name f ss

def lookup (c : Context) (name : String) : Except ContextError ContextSlot :=
  match c.slot? name with
  | none => .error (.unknownVariable name)
  | some s => .ok s

/-- The slot of a field into which the value fits. -/
def lookupFor (c : Context) (name : String) (value : UInt32) : Except ContextError ContextSlot :=
  match c.lookup name with
  | .error e => .error e
  | .ok s => if s.field.fits value then .ok s else .error (.valueOutOfRange name value s.field.width)

def default (c : Context) (name : String) : Except ContextError UInt32 :=
  (c.lookup name).map (·.field.default)

def setDefault (c : Context) (name : String) (value : UInt32) : Except ContextError Context :=
  (c.lookupFor name value).map fun _ =>
    { c with slots := updateSlots name (fun s => { s with field := { s.field with default := value } }) c.slots }

/-- Assigns a value over `first` to `last`, both included. -/
def assign (c : Context) (name : String) (space : SpaceId) (first last : UInt64) (value : UInt32) :
    Except ContextError Context :=
  (c.lookupFor name value).map fun _ =>
    let region : Region := ⟨space, first, last, value, c.nextSerial⟩
    ⟨updateSlots name (fun s => { s with regions := region.place s.regions }) c.slots, c.nextSerial + 1⟩

/-- Assigns a value from `a` to the end of its space. -/
def setFrom (c : Context) (name : String) (a : Address) (value : UInt32) : Except ContextError Context :=
  c.assign name a.space.id a.offset a.space.highest value

/-- Assigns a value from `a` up to `b`, which is not included. -/
def setRange (c : Context) (name : String) (a b : Address) (value : UInt32) : Except ContextError Context :=
  if a.space.id = b.space.id ∧ a.offset < b.offset then
    c.assign name a.space.id a.offset (b.offset - 1) value
  else .error (.invalidRange name)

/-- Forgets every range of a field. -/
def clear (c : Context) (name : String) : Except ContextError Context :=
  (c.lookup name).map fun _ =>
    { c with slots := updateSlots name (fun s => { s with regions := [] }) c.slots }

def value? (c : Context) (name : String) (a : Address) : Option UInt32 :=
  (c.slot? name).map (·.resolve a)

def get (c : Context) (name : String) (a : Address) : Except ContextError UInt32 :=
  (c.lookup name).map (·.resolve a)

end Context

end Lifter
