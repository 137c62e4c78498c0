/-
  Lifter.Specification.Attribute — the attributes and children of a description.

  Reading one gives its value or the error that names the element, the attribute and
  the text found there.
-/

import Lifter.Element
import Lifter.Specification.Error
import Lifter.Specification.Number

namespace Lifter.Specification

/-- An answer, or the first fault found. -/
abbrev Result := Except SpecificationError

def child (e : Element) (name : String) : Result Element :=
  match e.child? name with
  | none => .error (.missingElement e.name name)
  | some c => .ok c

def invalid {α : Type} (e : Element) (name value : String) : Result α :=
  .error (.invalidAttribute e.name name value)

def attr (e : Element) (name : String) : Result String :=
  match e.attribute? name with
  | none => .error (.missingAttribute e.name name)
  | some text => .ok text

def numberOfText (e : Element) (name text : String) : Result UInt64 :=
  match number? text.toList with
  | none => invalid e name text
  | some n => .ok n

def number (e : Element) (name : String) : Result UInt64 :=
  (attr e name).bind (numberOfText e name)

def numberOr (e : Element) (name : String) (default : UInt64) : Result UInt64 :=
  match e.attribute? name with
  | none => .ok default
  | some text => numberOfText e name text

/-- A number of 32 bits. -/
def smallNumber (e : Element) (name : String) : Result Nat :=
  (attr e name).bind fun text =>
    match number? text.toList with
    | none => invalid e name text
    | some n => if n.toNat < UInt32.size then .ok n.toNat else invalid e name text

def flagOr (e : Element) (name : String) (default : Bool) : Result Bool :=
  match e.attribute? name with
  | none => .ok default
  | some text =>
    if text = "true" ∨ text = "1" ∨ text = "yes" then .ok true
    else if text = "false" ∨ text = "0" ∨ text = "no" then .ok false
    else invalid e name text

/-- A number from `low` to `high`; what is outside is reported in decimal. -/
def inRange (e : Element) (name : String) (low high : Nat) (n : UInt64) : Result Nat :=
  if low ≤ n.toNat ∧ n.toNat ≤ high then .ok n.toNat else invalid e name (toString n.toNat)

/-- Reads elements in order, each knowing what the ones before it declared. -/
def collect {α : Type} (read : List α → Element → Result α) : List α → List Element → Result (List α)
  | done, [] => .ok done
  | done, e :: es =>
    match read done e with
    | .error err => .error err
    | .ok a => collect read (done ++ [a]) es

end Lifter.Specification
