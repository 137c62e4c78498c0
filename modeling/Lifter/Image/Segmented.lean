/-
  Lifter.Image.Segmented — named segments at addresses of their own.

  A segment is a run of bytes with zeros behind it. A request is answered byte by
  byte: the first segment in the list that contains the address supplies it, and goes
  on to supply the bytes that follow until it ends. So one request may run over several
  segments, and addresses wrap at 64 bits inside it.
-/

import Lifter.ByteSource

namespace Lifter

structure Segment where
  name : String
  address : UInt64
  bytes : List UInt8
  /-- Zero bytes behind the others. -/
  zeros : Nat
  executable : Bool
  deriving DecidableEq, Repr

namespace Segment

def size (s : Segment) : Nat := s.bytes.length + s.zeros

def contents (s : Segment) : List UInt8 := s.bytes ++ List.replicate s.zeros 0

def byte? (s : Segment) (i : Nat) : Option UInt8 :=
  if i < s.bytes.length then s.bytes[i]? else if i < s.size then some 0 else none

def contains (s : Segment) (offset : UInt64) : Bool :=
  s.address ≤ offset && (offset - s.address).toNat < s.size

/-- One past the last address. -/
def stop (s : Segment) : UInt64 := s.address + UInt64.ofNat s.size

def rebase (s : Segment) (delta : Int64) : Segment := { s with address := s.address + delta.toUInt64 }

def display (s : Segment) : String :=
  Text.padRight 16 s.name ++ " 0x" ++ Text.hexColumn 8 s.address ++ "..0x" ++ Text.hexColumn 8 s.stop ++
    if s.executable then " x" else ""

theorem byte?_eq (s : Segment) (i : Nat) : s.byte? i = s.contents[i]? := by
  unfold byte? contents size
  split
  · rename_i h; rw [List.getElem?_append_left h]
  · rename_i h
    rw [List.getElem?_append_right (by omega), List.getElem?_replicate]
    split <;> split <;> first | rfl | omega

end Segment

structure SegmentedImage where
  segments : List Segment
  entry : Option UInt64
  deriving DecidableEq, Repr

namespace SegmentedImage

def executableSegments (image : SegmentedImage) : List Segment := image.segments.filter (·.executable)

def segment? (image : SegmentedImage) (name : String) : Option Segment :=
  image.segments.find? (·.name == name)

def segmentAt? (image : SegmentedImage) (offset : UInt64) : Option Segment :=
  image.segments.find? (·.contains offset)

/-- The byte at `offset` and what supplies it, where `current` is the segment that supplied the byte
    before and the position reached in it. -/
def supply? (image : SegmentedImage) (current : Option (Segment × Nat)) (offset : UInt64) :
    Option (UInt8 × Segment × Nat) :=
  let here := current.bind fun (s, i) => (s.byte? i).map (·, s, i)
  here.or <| (image.segmentAt? offset).bind fun s =>
    let i := (offset - s.address).toNat
    (s.byte? i).map (·, s, i)

def gather? (image : SegmentedImage) (current : Option (Segment × Nat)) (offset : UInt64) :
    (n : Nat) → Option (Bytes n)
  | 0 => some ⟨[], rfl⟩
  | n + 1 =>
    match image.supply? current offset with
    | none => none
    | some (b, s, i) =>
      (image.gather? (some (s, i + 1)) (offset + 1) n).map fun bs => ⟨b :: bs.val, by simp [bs.property]⟩

def read (image : SegmentedImage) (offset : UInt64) (n : Nat) : Except SourceError (Bytes n) :=
  match image.gather? none offset n with
  | none => .error (.outOfRange offset n)
  | some bytes => .ok bytes

def rebase (image : SegmentedImage) (delta : Int64) : SegmentedImage :=
  ⟨image.segments.map (·.rebase delta), image.entry.map (· + delta.toUInt64)⟩

/-- A line for each segment. -/
def display (image : SegmentedImage) : String := String.join (image.segments.map (·.display ++ "\n"))

instance : ByteSource SegmentedImage where
  fill := ByteSource.ofRead read
  rebase := rebase

end SegmentedImage

end Lifter
