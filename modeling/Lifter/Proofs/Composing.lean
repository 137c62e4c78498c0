/-
  Lifter.Proofs.Composing — instructions put together from the values of their fields.

  An encoding whose fields overlap neither each other nor its mask leaves each bit of the
  word to one of them: the mask has the fixed bits, and a field its value shifted to its
  place (`Encoding.compose`). What a bit of that word is, is said once
  (`Encoding.testBit_compose`); from it follow that the encoding fits the word, that each
  field is extracted as it was put in, and that the word needs no more bytes than the
  encoding has. The bytes of a word, in either order, spell it again (`word_wordBytes`).
  Together: `Language.composed_extracted`.
-/

import Lifter.Proofs.Targets
import Mathlib.Data.Nat.Bitwise

namespace Lifter

open Specification

/-! ## Bytes of a word -/

/-- The `n` low bytes of a word, least significant first. -/
def lowBytes : Nat → UInt64 → List UInt8
  | 0, _ => []
  | n + 1, w => w.toUInt8 :: lowBytes n (w >>> 8)

/-- The `n` low bytes in the order of the processor. -/
def wordBytes (bigEndian : Bool) (n : Nat) (w : UInt64) : List UInt8 :=
  if bigEndian then (lowBytes n w).reverse else lowBytes n w

theorem length_lowBytes (n : Nat) (w : UInt64) : (lowBytes n w).length = n := by
  induction n generalizing w with
  | zero => rfl
  | succ n ih => simp only [lowBytes, List.length_cons, ih]

theorem length_wordBytes (bigEndian : Bool) (n : Nat) (w : UInt64) : (wordBytes bigEndian n w).length = n := by
  unfold wordBytes
  split
  · rw [List.length_reverse, length_lowBytes]
  · exact length_lowBytes n w

/-- A number has no bits past those that it needs. -/
theorem testBit_past {n bits k : Nat} (h : n < capacity bits) (hk : bits ≤ k) : n.testBit k = false :=
  Nat.testBit_lt_two_pow (lt_of_lt_of_le h (capacity_mono hk))

/-- A word is its low byte behind all the others. -/
theorem shiftRight_or_toUInt8 (w : UInt64) : ((w >>> 8) <<< 8) ||| w.toUInt8.toUInt64 = w := by
  apply UInt64.toNat_inj.mp
  apply Nat.eq_of_testBit_eq
  intro k
  have hcount : (8 : UInt64).toNat % 64 = 8 := rfl
  rw [UInt64.toNat_or, UInt64.toNat_shiftLeft, UInt64.toNat_shiftRight, UInt8.toNat_toUInt64, UInt64.toNat_toUInt8,
    hcount, Nat.testBit_or, Nat.testBit_mod_two_pow, Nat.testBit_mod_two_pow, Nat.testBit_shiftLeft,
    Nat.testBit_shiftRight]
  by_cases hlow : k < 8
  · simp [hlow, Nat.not_le.mpr hlow]
  · have hsum : 8 + (k - 8) = k := by omega
    by_cases hk : k < 64
    · simp [hlow, hk, hsum, Nat.not_lt.mp hlow]
    · have hout : w.toNat.testBit k = false := testBit_past w.toNat_lt (Nat.not_lt.mp hk)
      simp [hlow, hk, hout]

theorem bigEndianWord_lowBytes (n : Nat) (w : UInt64) (h : w.toNat < capacity (8 * n)) :
    bigEndianWord (lowBytes n w).reverse = w := by
  induction n generalizing w with
  | zero =>
    have hzero : w.toNat = 0 := by simpa [capacity] using h
    exact (UInt64.toNat_inj.mp hzero).symm
  | succ n ih =>
    have hrest : (w >>> 8).toNat < capacity (8 * n) := by
      have hsplit : capacity (8 * (n + 1)) = capacity (8 * n) * 256 := by
        simp only [capacity, Nat.pow_eq, Nat.mul_add, Nat.pow_add]
      rw [hsplit] at h
      rw [UInt64.toNat_shiftRight]
      simp only [Nat.shiftRight_eq_div_pow]
      exact Nat.div_lt_of_lt_mul (by rw [Nat.mul_comm]; exact h)
    rw [lowBytes, List.reverse_cons, bigEndianWord_concat, ih _ hrest, shiftRight_or_toUInt8]

/-- The bytes of a word that needs no more of them spell it, in either order. -/
theorem word_wordBytes (bigEndian : Bool) {n : Nat} {w : UInt64} (h : w.toNat < capacity (8 * n)) :
    word bigEndian (wordBytes bigEndian n w) = w := by
  cases bigEndian with
  | true => exact bigEndianWord_lowBytes n w h
  | false => exact bigEndianWord_lowBytes n w h

/-! ## Bits of fields -/

namespace OperandField

variable {f : OperandField}

/-- The bit at position `k` belongs to the field. -/
def Covers (f : OperandField) (k : Nat) : Prop := f.lsb ≤ k ∧ k < f.lsb + f.width

theorem testBit_extract (hwidth : 1 ≤ f.width) (hinside : f.lsb + f.width ≤ 64) (w : UInt64) (k : Nat) :
    (f.extract w).toNat.testBit k = (decide (k < f.width) && w.toNat.testBit (f.lsb + k)) := by
  rw [extract, toNat_and_lowMask, Nat.min_eq_left (by omega), UInt64.toNat_shiftRight, toNat_shiftCount (by omega),
    capacity, Nat.pow_eq, Nat.testBit_mod_two_pow, Nat.testBit_shiftRight]

theorem testBit_shifted (hwidth : 1 ≤ f.width) (hinside : f.lsb + f.width ≤ 64) {v : UInt64}
    (hv : v.toNat < capacity f.width) (k : Nat) :
    (v <<< UInt64.ofNat f.lsb).toNat.testBit k = (decide (f.lsb ≤ k) && v.toNat.testBit (k - f.lsb)) := by
  have hbound : v.toNat <<< f.lsb < 2 ^ 64 := by
    rw [Nat.shiftLeft_eq]
    calc v.toNat * 2 ^ f.lsb < 2 ^ f.width * 2 ^ f.lsb := Nat.mul_lt_mul_of_pos_right hv (Nat.two_pow_pos _)
      _ = 2 ^ (f.lsb + f.width) := by rw [← Nat.pow_add, Nat.add_comm]
      _ ≤ 2 ^ 64 := capacity_mono hinside
  rw [UInt64.toNat_shiftLeft, toNat_shiftCount (by omega), Nat.mod_eq_of_lt hbound, Nat.testBit_shiftLeft]

/-- A value that fits a field has, shifted to its place, bits there only. -/
theorem covers_of_testBit (hwidth : 1 ≤ f.width) (hinside : f.lsb + f.width ≤ 64) {v : UInt64}
    (hv : v.toNat < capacity f.width) {k : Nat} (h : (v <<< UInt64.ofNat f.lsb).toNat.testBit k = true) : f.Covers k := by
  rw [testBit_shifted hwidth hinside hv, Bool.and_eq_true, decide_eq_true_eq] at h
  obtain ⟨hle, hbit⟩ := h
  refine ⟨hle, ?_⟩
  by_contra hout
  rw [testBit_past hv (by omega)] at hbit
  exact absurd hbit (by decide)

end OperandField

/-! ## Composing -/

namespace Encoding

variable {e : Encoding} {d : Declarations} {values : OperandField → UInt64}

/-- The fields overlap neither each other nor the mask. -/
structure Separate (e : Encoding) : Prop where
  fields : ∀ f ∈ e.fields, ∀ g ∈ e.fields, f ≠ g → ∀ k, f.Covers k → ¬g.Covers k
  mask : ∀ f ∈ e.fields, ∀ k, f.Covers k → e.mask.toNat.testBit k = false

/-- The fixed bits, and the value of each field shifted to its place. -/
def compose (e : Encoding) (values : OperandField → UInt64) : UInt64 :=
  e.fields.foldl (fun w f => w ||| values f <<< UInt64.ofNat f.lsb) e.bits

theorem testBit_foldl_or {α : Type} (g : α → UInt64) (xs : List α) (w : UInt64) (k : Nat) :
    (xs.foldl (fun w x => w ||| g x) w).toNat.testBit k = (w.toNat.testBit k || xs.any fun x => (g x).toNat.testBit k) := by
  induction xs generalizing w with
  | nil => simp
  | cons x xs ih => rw [List.foldl_cons, ih, UInt64.toNat_or, Nat.testBit_or, List.any_cons, Bool.or_assoc]

theorem testBit_compose (e : Encoding) (values : OperandField → UInt64) (k : Nat) :
    (e.compose values).toNat.testBit k =
      (e.bits.toNat.testBit k || e.fields.any fun f => (values f <<< UInt64.ofNat f.lsb).toNat.testBit k) :=
  testBit_foldl_or _ e.fields e.bits k

/-- A fixed bit that is set lies under the mask. -/
theorem WellFormed.mask_of_bits (h : e.WellFormed d) {k : Nat} (hk : e.bits.toNat.testBit k = true) :
    e.mask.toNat.testBit k = true := by
  have hunder : (e.bits &&& e.mask).toNat.testBit k = true := by rw [h.bits_under, hk]
  rw [UInt64.toNat_and, Nat.testBit_and, Bool.and_eq_true] at hunder
  exact hunder.2

section Values

variable (hw : e.WellFormed d) (hv : ∀ f ∈ e.fields, (values f).toNat < capacity f.width)
include hw hv

theorem covers_of_field {f : OperandField} (hf : f ∈ e.fields) {k : Nat}
    (hk : (values f <<< UInt64.ofNat f.lsb).toNat.testBit k = true) : f.Covers k :=
  OperandField.covers_of_testBit (hw.fields.each f hf).width_pos (hw.inside_word hf) (hv f hf) hk

/-- Under the mask there are the fixed bits only. -/
theorem fits_compose (hs : e.Separate) : e.fits (e.compose values) = true := by
  rw [fits, beq_iff_eq]
  apply UInt64.toNat_inj.mp
  apply Nat.eq_of_testBit_eq
  intro k
  rw [UInt64.toNat_and, Nat.testBit_and, testBit_compose]
  by_cases hmask : e.mask.toNat.testBit k = true
  · have hnone : (e.fields.any fun f => (values f <<< UInt64.ofNat f.lsb).toNat.testBit k) = false := by
      rw [List.any_eq_false]
      intro f hf hk
      rw [hs.mask f hf k (covers_of_field hw hv hf hk)] at hmask
      exact absurd hmask (by decide)
    rw [hnone, hmask, Bool.or_false, Bool.and_true]
  · have hbits : e.bits.toNat.testBit k = false := by
      rw [← Bool.not_eq_true]
      intro hk
      exact hmask (hw.mask_of_bits hk)
    rw [Bool.not_eq_true] at hmask
    rw [hmask, hbits, Bool.and_false]

/-- In the place of a field there is its value only. -/
theorem extract_compose (hs : e.Separate) {f : OperandField} (hf : f ∈ e.fields) :
    f.extract (e.compose values) = values f := by
  have hwidth := (hw.fields.each f hf).width_pos
  have hinside := hw.inside_word hf
  apply UInt64.toNat_inj.mp
  apply Nat.eq_of_testBit_eq
  intro k
  rw [OperandField.testBit_extract hwidth hinside]
  by_cases hk : k < f.width
  · have hcovers : f.Covers (f.lsb + k) := ⟨by omega, by omega⟩
    have hbits : e.bits.toNat.testBit (f.lsb + k) = false := by
      rw [← Bool.not_eq_true]
      intro hset
      have hmask := hw.mask_of_bits hset
      rw [hs.mask f hf _ hcovers] at hmask
      exact absurd hmask (by decide)
    have hown : (values f <<< UInt64.ofNat f.lsb).toNat.testBit (f.lsb + k) = (values f).toNat.testBit k := by
      rw [OperandField.testBit_shifted hwidth hinside (hv f hf)]
      simp
    have honly : (e.fields.any fun g => (values g <<< UInt64.ofNat g.lsb).toNat.testBit (f.lsb + k)) =
        (values f).toNat.testBit k := by
      rw [Bool.eq_iff_iff, List.any_eq_true]
      constructor
      · intro ⟨g, hg, hset⟩
        have hsame : f = g := by
          by_contra hne
          exact hs.fields f hf g hg hne _ hcovers (covers_of_field hw hv hg hset)
        rwa [← hsame, hown] at hset
      · intro hset
        exact ⟨f, hf, hown.trans hset⟩
    rw [testBit_compose, hbits, honly, Bool.false_or, decide_eq_true hk, Bool.true_and]
  · have hout : (values f).toNat.testBit k = false := testBit_past (hv f hf) (Nat.not_lt.mp hk)
    rw [decide_eq_false hk, Bool.false_and, hout]

/-- The mask and the fields lie inside the bytes of the encoding. -/
theorem compose_lt : (e.compose values).toNat < capacity (8 * e.length) := by
  apply Nat.lt_pow_two_of_testBit
  intro k hk
  have hmask : e.mask.toNat.testBit k = false := testBit_past hw.mask_lt hk
  rw [← Bool.not_eq_true, testBit_compose, Bool.or_eq_true, List.any_eq_true]
  intro h
  cases h with
  | inl hbits =>
    rw [hw.mask_of_bits hbits] at hmask
    exact absurd hmask (by decide)
  | inr hfield =>
    obtain ⟨f, hf, hset⟩ := hfield
    have hcovers := covers_of_field hw hv hf hset
    have hinside := (hw.fields.each f hf).inside
    have hlt := hcovers.2
    omega

end Values

end Encoding

/-- For every accepted language and every encoding of it whose fields overlap neither each other nor its mask: of the
    bytes of a word that is composed of values of the fields, the word is read, it fits, and just these values are
    extracted. So there are bytes for each such encoding. -/
theorem Language.composed_extracted {root : Element} {l : Language} (accepted : Language.ofElement root = .ok l)
    {e : Encoding} (declared : e ∈ l.encodings) (separate : e.Separate) :
    (∀ values : OperandField → UInt64, (∀ f ∈ e.fields, (values f).toNat < capacity f.width) →
      let w := e.compose values
      let bytes := wordBytes l.bigEndian e.length w
      bytes.length = e.length ∧ word l.bigEndian bytes = w ∧ e.fits w = true ∧
        e.fields.map (·.extract w) = e.fields.map values) ∧
      ∃ bytes : List UInt8, bytes.length = e.length ∧ e.fits (word l.bigEndian bytes) = true := by
  have hw := (ofElement_wellFormed accepted).encodings e declared
  constructor
  · intro values hv w bytes
    refine ⟨length_wordBytes _ _ _, word_wordBytes _ (Encoding.compose_lt hw hv), Encoding.fits_compose hw hv separate, ?_⟩
    exact List.map_congr_left fun f hf => Encoding.extract_compose hw hv separate hf
  · have hzero : ∀ f ∈ e.fields, (0 : UInt64).toNat < capacity f.width := fun f _ => capacity_pos f.width
    refine ⟨wordBytes l.bigEndian e.length (e.compose fun _ => 0), length_wordBytes _ _ _, ?_⟩
    rw [word_wordBytes _ (Encoding.compose_lt hw hzero)]
    exact Encoding.fits_compose hw hzero separate

namespace Sample

/-- The second register and the number -2. -/
def addValues (f : OperandField) : UInt64 := if f = selector then 1 else 0xfe

theorem add_separate : add.Separate where
  fields := by
    intro f hf g hg hne k hcovers hcovers'
    simp only [add, List.mem_cons, List.not_mem_nil, or_false] at hf hg
    obtain ⟨hle, hlt⟩ := hcovers
    obtain ⟨hle', hlt'⟩ := hcovers'
    rcases hf with rfl | rfl <;> rcases hg with rfl | rfl
    · exact hne rfl
    · simp only [selector, amount] at hle hlt'
      omega
    · simp only [selector, amount] at hle' hlt
      omega
    · exact hne rfl
  mask := by
    intro f hf k hcovers
    simp only [add, List.mem_cons, List.not_mem_nil, or_false] at hf
    have hk : k < 10 := by
      obtain ⟨-, hlt⟩ := hcovers
      rcases hf with rfl | rfl <;> simp only [selector, amount] at hlt <;> omega
    exact (by decide : ∀ k < 10, add.mask.toNat.testBit k = false) k hk

end Sample

theorem Language.composed_extracted_add :
    let l := Sample.languageWith Sample.add
    Language.ofElement (Sample.rootWith Sample.addElement) = .ok l ∧ Sample.add ∈ l.encodings ∧ Sample.add.Separate ∧
      (∀ f ∈ Sample.add.fields, (Sample.addValues f).toNat < capacity f.width) ∧
      Sample.add.compose Sample.addValues = 0x11fe ∧ wordBytes l.bigEndian 2 0x11fe = [0x11, 0xfe] ∧
      Sample.add.fits (word l.bigEndian [0x11, 0xfe]) = true ∧ Sample.add.fields.map (·.extract 0x11fe) = [1, 0xfe] := by
  intro l
  have declared : Sample.add ∈ l.encodings := List.mem_singleton_self _
  have hfit : ∀ f ∈ Sample.add.fields, (Sample.addValues f).toNat < capacity f.width := by decide
  have hword : Sample.add.compose Sample.addValues = 0x11fe := by decide
  have hbytes : wordBytes l.bigEndian 2 0x11fe = [0x11, 0xfe] := by decide
  have hvalues : Sample.add.fields.map Sample.addValues = [1, 0xfe] := by decide
  obtain ⟨-, hread, hfits, hextracted⟩ :=
    (Language.composed_extracted Sample.add_accepted declared Sample.add_separate).1 Sample.addValues hfit
  rw [hword] at hread hfits hextracted
  refine ⟨Sample.add_accepted, declared, Sample.add_separate, hfit, hword, hbytes, ?_, hextracted.trans hvalues⟩
  rw [← hbytes]
  exact (congrArg Sample.add.fits hread).trans hfits

end Lifter
