/-
  Lifter.Listing.Sweep — a listing of consecutive instructions.

  From one address on, each instruction is disassembled and, if wanted, decoded to
  micro-operations; the next one starts behind it. After a failure the sweep goes on
  one alignment unit further. It ends when the listing is long enough, when the source
  has nothing at the current address, and when the address leaves the code space.
-/

import Lifter.Engine
import Lifter.Listing.Basic

namespace Lifter

/-- An engine and the recorders that a sweep uses for every instruction. -/
structure Sweep (σ : Type) where
  engine : Engine σ
  lines : Recorder LineRecord
  ops : Recorder OpRecord

namespace Sweep

variable {σ : Type} [ByteSource σ]

def start (engine : Engine σ) : Sweep σ := ⟨engine, .empty, .empty⟩

/-- Disassembles and, if wanted, decodes at `address`. -/
def attempt (withOps : Bool) (s : Sweep σ) (address : UInt64) : Except DecodeError Nat × Sweep σ :=
  let shown := s.engine.disassemble address Sink.lines s.lines
  match shown.result with
  | .error err => (.error err, { s with engine := shown.engine, lines := shown.sink })
  | .ok length =>
    if withOps then
      let lifted := shown.engine.decode address Sink.ops Recorder.empty
      (lifted.result.map fun _ => length, ⟨lifted.engine, shown.sink, lifted.sink⟩)
    else (.ok length, { s with engine := shown.engine, lines := shown.sink })

/-- A failure after which there is nothing more to list. -/
def endsAt (address : UInt64) : DecodeError → Bool
  | .byteSource a _ _ => a == address
  | .outOfSpace _ _ => true
  | _ => false

/-- At most `count` entries from `address` on, and what is left of the sweep. -/
def entries (withOps : Bool) : (count : Nat) → Sweep σ → UInt64 → List ListingEntry × Sweep σ
  | 0, s, _ => ([], s)
  | count + 1, s, address =>
    match s.attempt withOps address with
    | (.error err, s) =>
      if endsAt address err then ([], s)
      else
        let rest := entries withOps count s (address + UInt64.ofNat s.engine.language.alignment)
        (.failed address err.message :: rest.1, rest.2)
    | (.ok length, s) =>
      match s.lines.last? with
      | none => ([], s)
      | some line =>
        let entry := .decoded ⟨address, length, s.engine.lastBytes, line, s.ops.records⟩
        let rest := entries withOps count ⟨s.engine, .empty, .empty⟩ (address + UInt64.ofNat length)
        (entry :: rest.1, rest.2)

end Sweep

/-- The listing of at most `count` entries from `start` on, and the engine afterwards. -/
def Engine.sweep {σ : Type} [ByteSource σ] (e : Engine σ) (start : UInt64) (count : Nat) (withOps : Bool) :
    Listing × Engine σ :=
  let r := Sweep.entries withOps count (Sweep.start e) start
  (⟨e.language.name, e.language.codeSpace.name, r.1⟩, r.2.engine)

end Lifter
