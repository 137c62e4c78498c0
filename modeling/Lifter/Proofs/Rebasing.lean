/-
  Lifter.Proofs.Rebasing — images that are moved to other addresses.

  Moving is addition modulo 2^64, so moves add up and each one can be undone. That the
  bytes move along is another matter: an image looks for an address by order as well as
  by distance, and only the distance stays what it was. Where no range wraps, before or
  after, the order follows from the distance (`Segment.contains_regular`,
  `FlatImage.read_regular`), and a request at the moved address is answered with the bytes
  that were at the address before (`images_only_move`).
-/

import Lifter.Image.Flat
import Lifter.Proofs.Segments
import Mathlib.Data.List.Find

namespace Lifter

/-- A move changes the addresses of a source and nothing else: moves add up, the opposite move undoes one, and where
    no range wraps, the bytes that were brought at an address are brought at the moved address. `Moved` compares the
    source before with the one after. -/
structure ByteSource.OnlyMoves (σ : Type) [ByteSource σ] (Regular : σ → Prop) (Moved : UInt64 → σ → σ → Prop) :
    Prop where
  moved : ∀ (image : σ) (d : Int64), Moved d.toUInt64 image (ByteSource.rebase image d)
  rebase_rebase : ∀ (image : σ) (d e : Int64),
    ByteSource.rebase (ByteSource.rebase image d) e = ByteSource.rebase image (d + e)
  rebase_neg : ∀ (image : σ) (d : Int64), ByteSource.rebase (ByteSource.rebase image d) (-d) = image
  fill_rebase : ∀ (image : σ) (d : Int64), Regular image → Regular (ByteSource.rebase image d) →
    ∀ (a : Address) (n : Nat), a.space.addressSize = 8 → 1 ≤ n → ∀ bytes,
      (ByteSource.fill (ByteSource.rebase image d) (a.advance d.toUInt64) n).1 = .ok bytes ↔
        (ByteSource.fill image a n).1 = .ok bytes

/-! ## Distances -/

theorem add_sub_add (a b k : UInt64) : a + k - (b + k) = a - b := by grind

theorem add_add_delta (w : UInt64) (d e : Int64) : w + d.toUInt64 + e.toUInt64 = w + (d + e).toUInt64 := by
  rw [UInt64.add_assoc]
  rfl

theorem add_neg_delta (w : UInt64) (d : Int64) : w + d.toUInt64 + (-d).toUInt64 = w := by
  rw [add_add_delta, Int64.add_right_neg]
  exact UInt64.add_zero w

/-- In a space of eight bytes an address wraps only where words do. -/
theorem Address.offset_advance {a : Address} (h : a.space.addressSize = 8) (k : UInt64) :
    (a.advance k).offset = a.offset + k := by
  rw [advance, offset_address, Space.wrap_of_le]
  rw [Space.highest, h]
  exact UInt64.le_iff_toNat_le.mpr (Nat.le_of_lt_succ (a.offset + k).toNat_lt)

/-- From an offset before the base, the way round is longer than a range that does not wrap. -/
theorem le_of_distance_lt {base offset : UInt64} {size : Nat} (regular : base.toNat + size ≤ UInt64.size)
    (h : (offset - base).toNat < size) : base ≤ offset := by
  by_contra hbefore
  have hlt := UInt64.lt_iff_toNat_lt.mp (UInt64.not_le.mp hbefore)
  have hsize : UInt64.size = 2 ^ 64 := rfl
  rw [UInt64.toNat_sub] at h
  omega

/-! ## One run of bytes -/

namespace FlatImage

variable {image : FlatImage} {d : Int64} {offset : UInt64} {n : Nat}

/-- The run does not go on past the last address. -/
def Regular (image : FlatImage) : Prop := image.base.toNat + image.bytes.length ≤ UInt64.size
deriving Decidable

/-- The bytes are the same, but for their address. -/
structure Moved (delta : UInt64) (image moved : FlatImage) : Prop where
  bytes : moved.bytes = image.bytes
  base : moved.base = image.base + delta

/-- In a run that does not wrap, the distance alone decides what is answered. -/
theorem read_regular (regular : image.Regular) (hn : 1 ≤ n) (bytes : Bytes n) :
    image.read offset n = .ok bytes ↔ (offset - image.base).toNat + n ≤ image.bytes.length ∧
      bytes.val = (image.bytes.drop (offset - image.base).toNat).take n := by
  have horder : (offset - image.base).toNat + n ≤ image.bytes.length → image.base ≤ offset :=
    fun hle => le_of_distance_lt regular (by omega)
  simp only [read]
  split
  · rename_i h
    rw [Except.ok.injEq, Subtype.ext_iff, and_iff_right h.2, eq_comm]
  · rename_i h
    simp only [reduceCtorEq, false_iff, not_and]
    intro hle
    exact absurd ⟨horder hle, hle⟩ h

theorem read_rebase (regular : image.Regular) (regular' : (image.rebase d).Regular) (hn : 1 ≤ n) (bytes : Bytes n) :
    (image.rebase d).read (offset + d.toUInt64) n = .ok bytes ↔ image.read offset n = .ok bytes := by
  rw [read_regular regular' hn, read_regular regular hn]
  simp only [rebase, add_sub_add]

theorem rebase_rebase (image : FlatImage) (d e : Int64) : (image.rebase d).rebase e = image.rebase (d + e) := by
  simp only [rebase, add_add_delta]

theorem rebase_neg (image : FlatImage) (d : Int64) : (image.rebase d).rebase (-d) = image := by
  simp only [rebase, add_neg_delta]

end FlatImage

/-! ## Segments -/

namespace Segment

variable {s : Segment} {d : Int64} {offset : UInt64}

/-- The segment is the same, but for its address. -/
structure Moved (delta : UInt64) (s moved : Segment) : Prop where
  name : moved.name = s.name
  contents : moved.contents = s.contents
  executable : moved.executable = s.executable
  address : moved.address = s.address + delta

theorem rebase_moved (s : Segment) (d : Int64) : Moved d.toUInt64 s (s.rebase d) := ⟨rfl, rfl, rfl, rfl⟩

/-- In a segment that does not wrap, the distance alone decides what is contained. -/
theorem contains_regular (regular : s.address.toNat + s.size ≤ UInt64.size) :
    s.contains offset = true ↔ (offset - s.address).toNat < s.size := by
  rw [contains_iff, ← UInt64.le_iff_toNat_le]
  constructor
  · intro h
    exact h.2
  · intro hlt
    exact ⟨le_of_distance_lt regular hlt, hlt⟩

theorem contains_rebase (regular : s.address.toNat + s.size ≤ UInt64.size)
    (regular' : (s.rebase d).address.toNat + s.size ≤ UInt64.size) :
    (s.rebase d).contains (offset + d.toUInt64) = s.contains offset := by
  rw [Bool.eq_iff_iff, contains_regular regular', contains_regular regular]
  simp only [rebase, size, add_sub_add]

end Segment

namespace SegmentedImage

variable {image : SegmentedImage} {d : Int64} {offset : UInt64} {n : Nat}

/-- The segments are the same in the same order, but for their addresses, and the entry point moves along. -/
structure Moved (delta : UInt64) (image moved : SegmentedImage) : Prop where
  segments : List.Forall₂ (Segment.Moved delta) image.segments moved.segments
  entry : moved.entry = image.entry.map (· + delta)

theorem rebase_moved (image : SegmentedImage) (d : Int64) : Moved d.toUInt64 image (image.rebase d) where
  segments := by
    simp only [rebase, List.forall₂_map_right_iff]
    exact List.forall₂_same.mpr fun s _ => s.rebase_moved d
  entry := rfl

theorem rebase_rebase (image : SegmentedImage) (d e : Int64) : (image.rebase d).rebase e = image.rebase (d + e) := by
  simp only [rebase, List.map_map, Option.map_map, Function.comp_def, Segment.rebase, add_add_delta]

theorem rebase_neg (image : SegmentedImage) (d : Int64) : (image.rebase d).rebase (-d) = image := by
  simp only [rebase, List.map_map, Option.map_map, Function.comp_def, Segment.rebase, add_neg_delta, List.map_id',
    Option.map_id']

/-- Where a byte comes from, after the move. -/
def movedPosition (d : Int64) (p : Segment × Nat) : Segment × Nat := (p.1.rebase d, p.2)

section Requests

variable (regular : image.Regular) (regular' : (image.rebase d).Regular)
include regular regular'

theorem segmentAt?_rebase :
    (image.rebase d).segmentAt? (offset + d.toUInt64) = (image.segmentAt? offset).map (·.rebase d) := by
  have hsame : image.segments.find? ((·.contains (offset + d.toUInt64)) ∘ (·.rebase d)) =
      image.segments.find? (·.contains offset) :=
    List.find?_congr fun s hs => Segment.contains_rebase (regular s hs) (regular' _ (List.mem_map_of_mem hs))
  rw [segmentAt?, rebase, List.find?_map, hsame, segmentAt?]

theorem supply?_rebase (current : Option (Segment × Nat)) (offset : UInt64) :
    (image.rebase d).supply? (current.map (movedPosition d)) (offset + d.toUInt64) =
      (image.supply? current offset).map fun (b, p) => (b, movedPosition d p) := by
  have hfresh : (image.rebase d).supply? none (offset + d.toUInt64) =
      (image.supply? none offset).map fun (b, p) => (b, movedPosition d p) := by
    unfold supply?
    rw [segmentAt?_rebase regular regular']
    cases hs : image.segmentAt? offset with
    | none => rfl
    | some s =>
      simp only [Option.bind_none, Option.none_or, Option.map_some, Option.bind_some, Segment.rebase, add_sub_add,
        Option.map_map]
      rfl
  cases current with
  | none => exact hfresh
  | some position =>
    obtain ⟨s, i⟩ := position
    -- The segment goes on by position, which a move does not touch.
    have hbyte : (s.rebase d).byte? i = s.byte? i := rfl
    cases hb : s.byte? i with
    | none =>
      rw [supply?_of_ended hb, ← hfresh]
      exact supply?_of_ended (hbyte.trans hb) _
    | some b =>
      rw [supply?_of_byte? hb]
      exact supply?_of_byte? (hbyte.trans hb) _

/-- A step in the moved image is the move of a step, so the answers are the same by induction on their length. -/
theorem answer?_rebase (current : Option (Segment × Nat)) (offset : UInt64) (n : Nat) :
    (image.rebase d).answer? (current.map (movedPosition d)) (offset + d.toUInt64) n = image.answer? current offset n := by
  induction n generalizing current offset with
  | zero => rfl
  | succ n ih =>
    have hsupply := supply?_rebase regular regular' current offset
    cases hs : image.supply? current offset with
    | none =>
      rw [hs, Option.map_none] at hsupply
      rw [answer?_of_missing hs, answer?_of_missing hsupply]
    | some supplied =>
      obtain ⟨b, s, i⟩ := supplied
      rw [hs, Option.map_some] at hsupply
      have hnext : offset + d.toUInt64 + 1 = offset + 1 + d.toUInt64 := by grind
      rw [answer?_of_supply? hs, answer?_of_supply? hsupply, hnext, ← ih (some (s, i + 1)) (offset + 1)]
      rfl

end Requests

end SegmentedImage

/-! ## Requests -/

theorem ByteSource.ofRead_eq_ok {σ : Type} {read : σ → UInt64 → (n : Nat) → Except SourceError (Bytes n)} {source : σ}
    {a : Address} {n : Nat} {bytes : Bytes n} :
    (ByteSource.ofRead read source a n).1 = .ok bytes ↔ read source a.offset n = .ok bytes := by
  unfold ofRead
  cases read source a.offset n with
  | error cause => simp [Except.mapError]
  | ok filled => simp [Except.mapError]

theorem SegmentedImage.fill_eq_ok_iff {image : SegmentedImage} {a : Address} {n : Nat} {bytes : Bytes n} :
    (ByteSource.fill image a n).1 = .ok bytes ↔ image.answer? none a.offset n = some bytes.val := by
  constructor
  · exact answer?_of_fill
  · intro h
    obtain ⟨filled, hfilled⟩ := fill_succeeds_iff.mpr ⟨_, h⟩
    have hsame : filled = bytes := Subtype.ext (Option.some.inj ((answer?_of_fill hfilled).symm.trans h))
    rw [hfilled, hsame]

/-- Both kinds of images move as a whole: moves add up and can be undone, nothing but addresses changes, and where
    no range wraps, before or after, what is answered at an address is what was answered at it before the move. -/
theorem images_only_move :
    ByteSource.OnlyMoves FlatImage FlatImage.Regular FlatImage.Moved ∧
      ByteSource.OnlyMoves SegmentedImage SegmentedImage.Regular SegmentedImage.Moved := by
  constructor
  · refine ⟨fun _ _ => ⟨rfl, rfl⟩, FlatImage.rebase_rebase, FlatImage.rebase_neg, ?_⟩
    intro image d regular regular' a n hspace hn bytes
    refine ByteSource.ofRead_eq_ok.trans (Iff.trans ?_ ByteSource.ofRead_eq_ok.symm)
    rw [Address.offset_advance hspace]
    exact FlatImage.read_rebase regular regular' hn bytes
  · refine ⟨SegmentedImage.rebase_moved, SegmentedImage.rebase_rebase, SegmentedImage.rebase_neg, ?_⟩
    intro image d regular regular' a n hspace _ bytes
    have hanswer := SegmentedImage.answer?_rebase regular regular' none a.offset n
    rw [Option.map_none] at hanswer
    rw [SegmentedImage.fill_eq_ok_iff, SegmentedImage.fill_eq_ok_iff, Address.offset_advance hspace]
    exact hanswer ▸ Iff.rfl

namespace Sample

/-- Its last segment is at the last address, and it begins there. -/
def spread : SegmentedImage := { SegmentedImage.Sample.scattered with entry := some 0xffffffffffffffff }

end Sample

/-- A request that wraps does not after the move; and the last byte of a run lies high up after a move down. -/
theorem images_only_move_spread :
    let image := Sample.spread
    let a := SegmentedImage.Sample.longSpace.address 0xffffffffffffffff
    let up : Int64 := 0x10
    let flat : FlatImage := ⟨0x10, [1, 2, 3]⟩
    let b := SegmentedImage.Sample.longSpace.address 0x11
    let down : Int64 := -0x20
    image.Regular ∧ (image.rebase up).Regular ∧ (image.rebase up).entry = some 0xf ∧
      (a.advance up.toUInt64).offset = 0xf ∧
      (ByteSource.fill (image.rebase up) (a.advance up.toUInt64) 4).1 = .ok ⟨[0x10, 0x20, 0, 0], rfl⟩ ∧
      flat.Regular ∧ (flat.rebase down).Regular ∧ (flat.rebase down).base = 0xfffffffffffffff0 ∧
      (ByteSource.fill (flat.rebase down) (b.advance down.toUInt64) 2).1 = .ok ⟨[2, 3], rfl⟩ ∧
      (flat.rebase down).rebase (-down) = flat := by
  intro image a up flat b down
  obtain ⟨hflat, hsegmented⟩ := images_only_move
  have regular : image.Regular := by decide
  have regular' : (image.rebase up).Regular := by decide
  have hbytes : (ByteSource.fill image a 4).1 = .ok ⟨[0x10, 0x20, 0, 0], rfl⟩ := by decide +kernel
  have hmoved := (hsegmented.fill_rebase image up regular regular' a 4 (by decide) (by decide) _).mpr hbytes
  have regularFlat : flat.Regular := by decide
  have regularFlat' : (flat.rebase down).Regular := by decide
  have hbytesFlat : (ByteSource.fill flat b 2).1 = .ok ⟨[2, 3], rfl⟩ := by decide +kernel
  have hmovedFlat := (hflat.fill_rebase flat down regularFlat regularFlat' b 2 (by decide) (by decide) _).mpr hbytesFlat
  exact ⟨regular, regular', (hsegmented.moved image up).entry.trans (by decide), by decide +kernel, hmoved, regularFlat,
    regularFlat', (hflat.moved flat down).base.trans (by decide), hmovedFlat, hflat.rebase_neg flat down⟩

end Lifter
