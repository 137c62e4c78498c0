/-
  Lifter.Proofs.Targets — where fields and instructions point to in code.

  A relative target is computed in words of 64 bits: the field is sign-extended by
  shifting it to the top of a word and back, multiplied by the scale and added to the
  start, and the sum is masked. Each of these steps may wrap. But a space has a whole
  number of bytes, eight at most, so that every wrap is by a multiple of its extent, and
  what comes out is the remainder of the sum over the integers (`Instruction.wordTarget_eq`,
  `Instruction.toNat_relativeTarget`). Targets are handed over and printed as that
  remainder, and so is the offset behind an instruction (`Language.targets_exact`).
-/

import Lifter.Proofs.Machine
import Lifter.Proofs.Printed
import Lifter.Proofs.Temporaries

namespace Lifter

open Specification

/-! ## Two's complement in words -/

/-- The number that `width` bits with the value `raw` stand for. -/
def twosComplement (width raw : Nat) : Int := if 2 * raw < capacity width then raw else raw - capacity width

example : twosComplement 8 0xfd = -3 := by decide

theorem signed_eq_twosComplement {width : Nat} {bits : UInt64} (h : bits.toNat < capacity width) :
    signed width bits = twosComplement width bits.toNat := by
  rw [signed, Int.bmod_def, twosComplement, Int.emod_eq_of_lt (by omega) (by omega)]
  by_cases hlow : 2 * bits.toNat < capacity width
  · rw [if_pos hlow, if_pos (by omega)]
  · rw [if_neg hlow, if_neg (by omega)]

/-- The same number in a word, shifted to the top and back. -/
def signExtendWord (bits : UInt64) (width : Nat) : Int64 :=
  if width = 0 ∨ 64 ≤ width then bits.toInt64
  else (bits <<< UInt64.ofNat (64 - width)).toInt64 >>> Int64.ofNat (64 - width)

theorem toInt_sshiftRight_ofNat {n : Nat} (h : n < 64) (w : UInt64) :
    (w.toInt64 >>> Int64.ofNat n).toInt = (w.toBitVec.sshiftRight n).toInt := by
  have hcount : ∀ n : Fin 64, ((Int64.ofNat n).toBitVec.smod 64).toNat = n := by decide
  rw [← Int64.toInt_toBitVec, Int64.toBitVec_shiftRight, BitVec.sshiftRight', hcount ⟨n, h⟩]
  rfl

theorem toInt_signExtendWord {width : Nat} (h : 1 ≤ width) (hle : width ≤ 64) (bits : UInt64) :
    (signExtendWord bits width).toInt = signed width bits := by
  unfold signExtendWord
  by_cases hwidth : width = 64
  · subst hwidth
    exact BitVec.toInt_eq_toNat_bmod _
  · rw [if_neg (by omega), toInt_sshiftRight_ofNat (by omega), Checked.sshiftRight_shiftLeft h hle]

/-- A product of words is the product of their numbers, cut off. -/
theorem toUInt64_mul (a b : Int64) : (a * b).toUInt64 = UInt64.ofInt (a.toInt * b.toInt) := by
  have hbits : ((a * b).toUInt64.toNat : Int).bmod (2 ^ 64) = (a * b).toInt :=
    (BitVec.toInt_eq_toNat_bmod (a * b).toBitVec).symm
  rw [Int64.toInt_mul] at hbits
  have hmod := congrArg (· % ((2 ^ 64 : Nat) : Int)) hbits
  simp only [Int.bmod_emod] at hmod
  rw [← UInt64.toNat_inj, ← Int.natCast_inj, toNat_ofInt]
  have hlt := (a * b).toUInt64.toNat_lt
  rw [Int.emod_eq_of_lt (by omega) (by omega)] at hmod
  exact hmod

/-! ## Targets -/

namespace Instruction

variable (i : Instruction) (l : Language) (f : OperandField)

/-- The target of a relative field, computed in words. -/
def wordTarget (scale : Int64) : UInt64 :=
  l.codeSpace.wrap (i.start + (signExtendWord (f.extract i.word) f.width * scale).toUInt64)

theorem wordTarget_eq (h : 1 ≤ f.width) (hle : f.width ≤ 64) (scale : Int64) :
    i.wordTarget l f scale = i.relativeTarget l f scale.toInt := by
  rw [wordTarget, relativeTarget, toUInt64_mul, toInt_signExtendWord h hle, Int.mul_comm]

theorem toNat_relativeTarget (scale : Int) :
    ((i.relativeTarget l f scale).toNat : Int) =
      (i.start.toNat + scale * twosComplement f.width (f.extract i.word).toNat) % l.codeSpace.extent := by
  have hdvd : (l.codeSpace.extent : Int) ∣ (UInt64.size : Nat) := Int.natCast_dvd_natCast.mpr l.codeSpace.extent_dvd
  rw [relativeTarget, Space.toNat_wrap, UInt64.toNat_add, Int.natCast_emod, Int.natCast_emod, Int.natCast_add,
    toNat_ofInt, signed_eq_twosComplement (f.toNat_extract_lt i.word)]
  -- taking the remainder by the number of words first leaves that by the extent as it is
  rw [Int.emod_emod_of_dvd _ hdvd, Int.add_emod, Int.emod_emod_of_dvd _ hdvd, ← Int.add_emod]

/-- The field's operand is handed over as code at the offset and printed as it. -/
structure PointsTo (offset : Int) : Prop where
  emitted : ∃ v, i.varnode l (.field f) = .ok v ∧ v.address.space = l.codeSpace ∧
    (v.address.offset.toNat : Int) = offset ∧ v.size = l.codeSpace.addressSize
  printed : ∃ n : Nat, (n : Int) = offset ∧ i.fieldText l f = .ok (Text.hexNat n)

/-- An offset that is wrapped already is handed over as it is. -/
theorem pointsTo_of_wrapped {offset : UInt64}
    (hstorage : i.fieldStorage l f = .ok ⟨l.codeSpace, l.codeSpace.wrap offset, l.codeSpace.addressSize⟩)
    (htext : i.fieldText l f = .ok (Text.hex (l.codeSpace.wrap offset))) :
    i.PointsTo l f (l.codeSpace.wrap offset).toNat := by
  refine ⟨⟨_, map_eq_ok.mpr ⟨_, hstorage, rfl⟩, rfl, ?_, rfl⟩, ⟨_, rfl, htext⟩⟩
  rw [Storage.varnode, Address.offset_address, Space.wrap_wrap]

theorem pointsTo_relative {scale : Int} (hkind : f.kind = .relative scale) :
    i.PointsTo l f
      ((i.start.toNat + scale * twosComplement f.width (f.extract i.word).toNat) % l.codeSpace.extent) := by
  rw [← toNat_relativeTarget]
  apply pointsTo_of_wrapped
  · unfold fieldStorage
    rw [hkind]
    rfl
  · unfold fieldText
    rw [hkind]
    rfl

theorem pointsTo_absolute (hkind : f.kind = .absolute) :
    i.PointsTo l f ((f.extract i.word).toNat % l.codeSpace.extent) := by
  rw [← Int.natCast_emod, ← Space.toNat_wrap]
  apply pointsTo_of_wrapped
  · unfold fieldStorage
    rw [hkind]
    rfl
  · unfold fieldText
    rw [hkind]
    rfl

theorem toNat_nextOffset : (i.nextOffset l).toNat = (i.start.toNat + i.length) % l.codeSpace.extent := by
  rw [nextOffset, Space.toNat_wrap_add]

/-- The offset behind the instruction fits a constant. -/
theorem offset_next (hconstant : l.constantSpace = constantSpace l.bigEndian) :
    (l.constantSpace.wrap (i.nextOffset l)).toNat = (i.start.toNat + i.length) % l.codeSpace.extent := by
  have hfits : l.constantSpace.wrap (i.nextOffset l) = i.nextOffset l := by
    rw [hconstant]
    exact constantSpace_fits l.bigEndian (i.nextOffset l) l.codeSpace.addressSize
  rw [hfits, toNat_nextOffset]

end Instruction

/-! ## Scales as they are declared -/

theorem readScale_bounds {el : Element} {scale : Int} (h : readScale el = .ok scale) :
    -(capacity 63 : Int) ≤ scale ∧ scale < capacity 63 := by
  unfold readScale at h
  split at h
  · cases h
    decide
  · split at h
    · simp [invalid] at h
    · rename_i n hn
      cases h
      obtain ⟨hlow, hhigh⟩ := integer?_bounds hn
      exact ⟨Int.le_of_lt hlow, hhigh⟩

/-- A scale that an instruction declares is a number of 64 bits with a sign. -/
theorem DeclaredBy.scale_bounds {root el : Element} {l : Language} {e : Encoding} (h : DeclaredBy root l e el)
    {f : OperandField} (hf : f ∈ e.fields) {scale : Int} (hkind : f.kind = .relative scale) :
    -(capacity 63 : Int) ≤ scale ∧ scale < capacity 63 := by
  obtain ⟨fieldEl, -, before, hfield⟩ := exists_of_forall₂ h.fields_read f hf
  have hread := (readOperandField_reads hfield).kind
  rw [hkind] at hread
  rcases readFieldKind_cases hread with ⟨_, _, -, -, hkind⟩ | ⟨_, _, hkind, -⟩ | ⟨_, hkind, hscale⟩ | hkind
  · cases hkind
  · cases hkind
  · cases hkind
    exact readScale_bounds hscale
  · cases hkind

/-! ## Instructions of a language -/

/-- Targets of an instruction are remainders of integers by the number of code offsets. -/
structure Instruction.TargetsExact (i : Instruction) (l : Language) : Prop where
  addressSize : 1 ≤ l.codeSpace.addressSize ∧ l.codeSpace.addressSize ≤ 8
  width : ∀ f ∈ i.encoding.fields, 1 ≤ f.width ∧ f.width ≤ 64
  relative : ∀ f ∈ i.encoding.fields, ∀ scale, f.kind = .relative scale →
    (-(capacity 63 : Int) ≤ scale ∧ scale < capacity 63) ∧
      i.PointsTo l f ((i.start.toNat + scale * twosComplement f.width (f.extract i.word).toNat) %
        capacity (8 * l.codeSpace.addressSize))
  /-- Whatever the scale, computing in words comes to the same. -/
  inWords : ∀ f ∈ i.encoding.fields, ∀ scale : Int64, ((i.wordTarget l f scale).toNat : Int) =
    (i.start.toNat + scale.toInt * twosComplement f.width (f.extract i.word).toNat) %
      capacity (8 * l.codeSpace.addressSize)
  absolute : ∀ f ∈ i.encoding.fields, f.kind = .absolute →
    i.PointsTo l f ((f.extract i.word).toNat % capacity (8 * l.codeSpace.addressSize))
  next : ∃ v, i.varnode l .next = .ok v ∧ v.address.space = l.constantSpace ∧
    v.address.offset.toNat = (i.start.toNat + i.length) % capacity (8 * l.codeSpace.addressSize) ∧
    v.size = l.codeSpace.addressSize

theorem Space.Regular.extent_eq {s : Space} (h : s.Regular) : s.extent = capacity (8 * s.addressSize) := by
  have hle := h.addressSize_le
  rw [extent, Nat.min_eq_left (by omega)]

/-- For every accepted language and every instruction of it: relative and absolute fields point to, and
    `inst_next` is, what the sum over the integers leaves modulo the size of the code space. -/
theorem Language.targets_exact {root : Element} {l : Language} (accepted : Language.ofElement root = .ok l)
    (i : Instruction) (declared : i.encoding ∈ l.encodings) : i.TargetsExact l := by
  have hw := ofElement_wellFormed accepted
  have he := hw.encodings _ declared
  have hcode := hw.codeSpace_regular
  obtain ⟨el, hel⟩ := exists_declaredBy accepted declared
  have hextent : l.codeSpace.extent = capacity (8 * l.codeSpace.addressSize) := hcode.extent_eq
  refine ⟨⟨hcode.addressSize_pos, hcode.addressSize_le⟩, fun f hf => he.width_bounds hf, ?_, ?_, ?_, ?_⟩
  · intro f hf scale hkind
    rw [← hextent]
    exact ⟨hel.scale_bounds hf hkind, i.pointsTo_relative l f hkind⟩
  · intro f hf scale
    obtain ⟨hpos, hle⟩ := he.width_bounds hf
    rw [i.wordTarget_eq l f hpos hle, i.toNat_relativeTarget, hextent]
  · intro f hf hkind
    rw [← hextent]
    exact i.pointsTo_absolute l f hkind
  · refine ⟨Storage.varnode ⟨l.constantSpace, i.nextOffset l, l.codeSpace.addressSize⟩, rfl, rfl, ?_, rfl⟩
    rw [← hextent]
    exact i.offset_next l (ofElement_constantSpace accepted)

namespace Sample

/-- A scale with which the distance takes more than 64 bits. -/
def distance : OperandField := ⟨"to", 0, 8, .relative 0x4000000000000001⟩

def leap : Encoding where
  mnemonic := "leap"
  length := 2
  mask := 0xff00
  bits := 0x2000
  constraints := []
  fields := [distance]
  operands := [.field distance]
  ops := [⟨.branch, none, [.field distance]⟩]

def leapElement : Element :=
  ⟨"instruction", [("mnemonic", "leap"), ("length", "2"), ("mask", "0xff00"), ("match", "0x2000"), ("operands", "{to}")],
    "",
    [leaf "field"
        [("name", "to"), ("lsb", "0"), ("width", "8"), ("kind", "relative"), ("scale", "0x4000000000000001")],
      leaf "op" [("code", "BRANCH"), ("in", "to")]]⟩

theorem leap_accepted : Language.ofElement (rootWith leapElement) = .ok (languageWith leap) := by rfl

end Sample

/-- Three units back from 0x10, where 2^62 units make no difference. -/
theorem Language.targets_exact_leap :
    let l := Sample.languageWith Sample.leap
    let i : Instruction := ⟨Sample.leap, 0x20fd, 0x10⟩
    Language.ofElement (Sample.rootWith Sample.leapElement) = .ok l ∧ i.encoding ∈ l.encodings ∧
      ((Engine.ofLanguage (⟨0x10, [0x20, 0xfd]⟩ : FlatImage) l).fetch 0x10).result = .ok i ∧
      i.fieldText l Sample.distance = .ok "0xd" ∧ i.TargetsExact l :=
  ⟨Sample.leap_accepted, List.mem_singleton_self _, by rfl, by rfl,
    Language.targets_exact Sample.leap_accepted _ (List.mem_singleton_self _)⟩

end Lifter
