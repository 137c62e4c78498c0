/-
  Lifter.ByteSource — where the bytes of a program come from.

  A source answers a request for so many bytes at an address with exactly that many,
  refuses it, or breaks down; there is no partial answer. A request may change the
  source. A source can be told to move its bytes to other addresses, which it ignores
  unless it says otherwise. An observed source answers as the source in it does, and
  keeps what was asked for and what came of it.
-/

import Lifter.Address
import Lifter.DecodeError

namespace Lifter

abbrev Bytes (n : Nat) := { bytes : List UInt8 // bytes.length = n }

inductive SourceFailure where
  | refused (cause : SourceError)
  | broke (fault : Fault)
  deriving DecidableEq, Repr

class ByteSource (σ : Type) where
  fill : σ → Address → (n : Nat) → Except SourceFailure (Bytes n) × σ
  rebase : σ → Int64 → σ := fun source _ => source

/-- A source that does not change: it answers or refuses. -/
def ByteSource.ofRead {σ : Type} (read : σ → UInt64 → (n : Nat) → Except SourceError (Bytes n)) (source : σ)
    (a : Address) (n : Nat) : Except SourceFailure (Bytes n) × σ :=
  ((read source a.offset n).mapError .refused, source)

/-! ## Observed sources -/

structure Request where
  address : Address
  size : Nat
  outcome : Except SourceFailure (List UInt8)

/-- The bytes that a request brought, none if it failed. -/
def Request.supplied (r : Request) : List UInt8 :=
  match r.outcome with
  | .ok bytes => bytes
  | .error _ => []

structure Observed (σ : Type) where
  source : σ
  /-- The requests so far, latest first. -/
  log : List Request

namespace Observed

variable {σ : Type}

def ofSource (source : σ) : Observed σ := ⟨source, []⟩

/-- The requests so far, in order. -/
def requests (o : Observed σ) : List Request := o.log.reverse

instance [ByteSource σ] : ByteSource (Observed σ) where
  fill o a n :=
    let r := ByteSource.fill o.source a n
    (r.1, ⟨r.2, ⟨a, n, r.1.map (·.val)⟩ :: o.log⟩)
  rebase o delta := { o with source := ByteSource.rebase o.source delta }

end Observed

end Lifter
