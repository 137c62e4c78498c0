/-
  Lifter.Sink — receivers of records.

  A sink is given records one at a time and may break down on any of them, which ends
  the delivery. The recorders are sinks that never do.
-/

import Lifter.DecodeError
import Lifter.Record

namespace Lifter

/-- Takes an `α` in state `τ`; the answer is the fault, if it breaks down, and the new state. -/
structure Sink (α τ : Type) where
  accept : τ → α → Option Fault × τ

/-- A record that was handed over, and the fault if the sink broke down on it. -/
structure Receipt (α : Type) where
  record : α
  fault : Option Fault

namespace Sink

variable {α τ : Type}

/-- Hands over the records in order, up to the first on which the sink breaks down. -/
def deliver (sink : Sink α τ) : List α → τ → Option Fault × τ
  | [], t => (none, t)
  | a :: as, t =>
    match sink.accept t a with
    | (some fault, t) => (some fault, t)
    | (none, t) => sink.deliver as t

/-- Keeps copies of the records. -/
def recording {β : Type} (copy : α → β) : Sink α (Recorder β) where
  accept r a := (none, r.push (copy a))

def ops : Sink MicroOp (Recorder OpRecord) := recording MicroOp.record

def lines : Sink AssemblyLine (Recorder LineRecord) := recording AssemblyLine.record

/-- Also lists what the sink is given and what comes of it, the record on which it breaks down
    included. -/
def witnessed (sink : Sink α τ) : Sink α (τ × List (Receipt α)) where
  accept t a := let r := sink.accept t.1 a; (r.1, r.2, t.2 ++ [⟨a, r.1⟩])

end Sink

end Lifter
