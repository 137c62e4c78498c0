/-
  Lifter.RegisterStore — the registers of a processor, and where each of them is.

  Registers are kept in the order in which they are declared. An index beside them has
  the position of the register of each name; a name is looked up in the index only.
-/

import Lifter.Encoding

namespace Lifter

structure RegisterStore where
  registers : List Register
  /-- Names and positions, latest first. -/
  index : List (String × Nat)
  deriving DecidableEq, Repr

namespace RegisterStore

def empty : RegisterStore := ⟨[], []⟩

def position? (s : RegisterStore) (name : String) : Option Nat := s.index.lookup name

def register? (s : RegisterStore) (name : String) : Option Register := (s.position? name).bind (s.registers[·]?)

def add (s : RegisterStore) (r : Register) : RegisterStore :=
  ⟨s.registers ++ [r], (r.name, s.registers.length) :: s.index⟩

end RegisterStore

end Lifter
