/-
  Lifter.Documents — the documents loaded so far.

  Each is kept by the tag of its root, in the order of loading, and no two roots share
  a tag. A document that is not well-formed, or whose tag is taken, leaves the store
  as it was.
-/

import Lifter.Element

namespace Lifter

inductive DocumentError where
  | malformed
  | duplicateRoot (name : String)
  deriving DecidableEq, Repr

def DocumentError.message : DocumentError → String
  | .malformed => "Malformed specification document: the text is not well-formed"
  | .duplicateRoot name => s!"Root element <{name}> is already registered"

structure Documents where
  roots : List Element

namespace Documents

def empty : Documents := ⟨[]⟩

def root? (d : Documents) (tag : String) : Option Element := d.roots.find? (·.name == tag)

def register (d : Documents) (root : Element) : Except DocumentError Documents :=
  if (d.root? root.name).isSome then .error (.duplicateRoot root.name) else .ok ⟨d.roots ++ [root]⟩

/-- The element of a document's text. -/
def read (text : String) : Except DocumentError Element :=
  match Element.ofDocument? text with
  | none => .error .malformed
  | some root => .ok root

def load (d : Documents) (text : String) : Except DocumentError Documents :=
  (read text).bind d.register

end Documents

end Lifter
