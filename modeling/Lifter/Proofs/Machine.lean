/-
  Lifter.Proofs.Machine — steps that a machine may refuse.

  A position can lie outside its list, a slice outside its buffer, a shift can be too
  wide, a difference negative, a product too large, a divisor zero. A `Checked` step
  has a result or ends in such a `Breach`; an `Answer` may also fail in the way decoding
  does. Beside each step stands the bound under which it is what the decoder computes
  with words: masks and highest offsets always are (`mask_eq`, `highest_eq`), and sign
  extension by two shifts is the number that the bits stand for (`signExtend_eq`).
-/

import Lifter.Address
import Lifter.DecodeError
import Mathlib.Data.List.Basic

namespace Lifter

inductive Breach where
  | index (position length : Nat)
  | slice (stop length : Nat)
  | order (first stop : Nat)
  | shiftLeft
  | shiftRight
  | subtraction
  | multiplication
  | remainder
  deriving DecidableEq, Repr

def Breach.message : Breach → String
  | .index position length => s!"index out of bounds: the len is {length} but the index is {position}"
  | .slice stop length => s!"range end index {stop} out of range for slice of length {length}"
  | .order first stop => s!"slice index starts at {first} but ends at {stop}"
  | .shiftLeft => "attempt to shift left with overflow"
  | .shiftRight => "attempt to shift right with overflow"
  | .subtraction => "attempt to subtract with overflow"
  | .multiplication => "attempt to multiply with overflow"
  | .remainder => "attempt to calculate the remainder with a divisor of zero"

/-- Why there is no answer. -/
inductive Stop where
  | breach (b : Breach)
  | failed (err : DecodeError)
  deriving DecidableEq, Repr

abbrev Checked (α : Type) := Except Breach α

abbrev Answer (α : Type) := Except Stop α

instance : MonadLift Checked Answer := ⟨fun x => x.mapError .breach⟩

/-- An answer without a breach. -/
def answer {α : Type} (x : Except DecodeError α) : Answer α := x.mapError .failed

@[simp] theorem lift_ok_bind {α β : Type} (a : α) (k : α → Answer β) :
    ((liftM (Except.ok a : Checked α) : Answer α) >>= k) = k a := rfl

/-- Answers without a breach follow each other like the results in them. -/
theorem answer_bind {α β : Type} {x : Except DecodeError α} {k : α → Answer β} {f : α → Except DecodeError β}
    (h : ∀ a, x = .ok a → k a = answer (f a)) : answer x >>= k = answer (x >>= f) := by
  cases x with
  | error err => rfl
  | ok a => exact h a rfl

theorem answer_map {α β : Type} (x : Except DecodeError α) (f : α → β) :
    (answer x >>= fun a => pure (f a)) = answer (x.map f) := by
  cases x <;> rfl

theorem mapM_answer {α β : Type} {g : α → Answer β} {f : α → Except DecodeError β} {as : List α}
    (h : ∀ a ∈ as, g a = answer (f a)) : as.mapM g = answer (as.mapM f) := by
  induction as with
  | nil => rfl
  | cons a as ih =>
    rw [List.mapM_cons, List.mapM_cons, h a List.mem_cons_self, ih fun b hb => h b (List.mem_cons_of_mem _ hb)]
    refine answer_bind fun b _ => ?_
    exact answer_map _ _

theorem optionMapM_answer {α β : Type} {g : α → Answer β} {f : α → Except DecodeError β} {o : Option α}
    (h : ∀ a, o = some a → g a = answer (f a)) : o.mapM g = answer (o.mapM f) := by
  cases o with
  | none => rfl
  | some a =>
    simp only [Option.mapM_some, h a rfl]
    exact answer_map _ _

namespace Checked

theorem mapM_ok {α β : Type} {g : α → Checked β} {f : α → β} {as : List α} (h : ∀ a ∈ as, g a = .ok (f a)) :
    as.mapM g = .ok (as.map f) := by
  induction as with
  | nil => rfl
  | cons a as ih =>
    rw [List.mapM_cons, h a List.mem_cons_self, ih fun b hb => h b (List.mem_cons_of_mem _ hb)]
    rfl

theorem optionMapM_ok {α β : Type} {g : α → Checked β} {f : α → β} {o : Option α}
    (h : ∀ a, o = some a → g a = .ok (f a)) : o.mapM g = .ok (o.map f) := by
  cases o with
  | none => rfl
  | some a =>
    simp only [Option.mapM_some, h a rfl]
    rfl

/-! ## Positions -/

def nth {α : Type} (as : List α) (i : Nat) : Checked α :=
  match as[i]? with
  | some a => .ok a
  | none => .error (.index i as.length)

/-- The position of the declaration with this name, or one past the end. In an accepted description it is the number
    that the name takes while it is read (`Language.numbers_kept`). -/
def position {α : Type} (nameOf : α → String) (as : List α) (name : String) : Nat := as.findIdx (nameOf · == name)

/-- A declaration that is kept by its position. -/
def lookUp {α : Type} (nameOf : α → String) (as : List α) (name : String) : Checked α :=
  nth as (position nameOf as name)

/-- Cuts the bytes from `first` up to `stop` out of a buffer of `length` bytes. -/
def window (first stop length : Nat) : Checked Unit :=
  if stop < first then .error (.order first stop)
  else if length < stop then .error (.slice stop length)
  else .ok ()

theorem nth_eq {α : Type} {as : List α} {i : Nat} {a : α} (h : as[i]? = some a) : nth as i = .ok a := by
  simp only [nth, h]

theorem window_eq {first stop length : Nat} (h : first ≤ stop) (hle : stop ≤ length) :
    window first stop length = .ok () := by
  rw [window, if_neg (Nat.not_lt.mpr h), if_neg (Nat.not_lt.mpr hle)]

theorem find?_name_eq {α : Type} {nameOf : α → String} {as : List α} (hd : (as.map nameOf).Nodup) {a : α}
    (ha : a ∈ as) : as.find? (nameOf · == nameOf a) = some a := by
  induction as with
  | nil => cases ha
  | cons b as ih =>
    rw [List.map_cons, List.nodup_cons] at hd
    rcases List.mem_cons.mp ha with rfl | ha
    · exact List.find?_cons_of_pos (by simp)
    · have hne : nameOf b ≠ nameOf a := fun heq => hd.1 (heq ▸ List.mem_map_of_mem ha)
      rw [List.find?_cons_of_neg (by simpa using hne)]
      exact ih hd.2 ha

/-- What is computed for every declaration stands at the position of the declaration. -/
theorem nth_position {α β : Type} {nameOf : α → String} {as : List α} (hd : (as.map nameOf).Nodup) {a : α}
    (ha : a ∈ as) (f : α → β) : nth (as.map f) (position nameOf as (nameOf a)) = .ok (f a) := by
  refine nth_eq ?_
  rw [List.getElem?_map, position, ← List.find?_eq_getElem?_findIdx, find?_name_eq hd ha]
  rfl

theorem lookUp_eq {α : Type} {nameOf : α → String} {as : List α} (hd : (as.map nameOf).Nodup) {a : α} (ha : a ∈ as) :
    lookUp nameOf as (nameOf a) = .ok a := by
  simpa [lookUp] using nth_position hd ha id

/-! ## Arithmetic -/

def shiftLeft (w : UInt64) (n : Nat) : Checked UInt64 :=
  if n < 64 then .ok (w <<< UInt64.ofNat n) else .error .shiftLeft

def shiftRight (w : UInt64) (n : Nat) : Checked UInt64 :=
  if n < 64 then .ok (w >>> UInt64.ofNat n) else .error .shiftRight

def subtract (v w : UInt64) : Checked UInt64 := if w ≤ v then .ok (v - w) else .error .subtraction

/-- How many bits so many bytes have, as a number of 32 bits. -/
def bitsOf (bytes : Nat) : Checked Nat := if 8 * bytes < UInt32.size then .ok (8 * bytes) else .error .multiplication

def remainder (w : UInt64) (n : Nat) : Checked Nat := if n = 0 then .error .remainder else .ok (w.toNat % n)

/-- The mask of the low bits, out of a shift and a subtraction. -/
def mask (bits : Nat) : Checked UInt64 :=
  if 64 ≤ bits then .ok (UInt64.ofNat (UInt64.size - 1))
  else do
    let next ← shiftLeft 1 bits
    subtract next 1

/-- The number with these two's complement bits, shifted to the top of the word and back. -/
def signExtend (w : UInt64) (width : Nat) : Checked Int :=
  if width = 0 ∨ 64 ≤ width then .ok w.toInt64.toInt
  else do
    let top ← shiftLeft w (64 - width)
    if 64 - width < 64 then .ok (top.toBitVec.sshiftRight (64 - width)).toInt else .error .shiftRight

theorem toNat_shiftLeft_ofNat {n : Nat} (h : n < 64) (w : UInt64) :
    (w <<< UInt64.ofNat n).toNat = w.toNat * capacity n % capacity 64 := by
  rw [UInt64.toNat_shiftLeft, toNat_shiftCount h, Nat.shiftLeft_eq]
  rfl

theorem mask_eq (bits : Nat) : mask bits = .ok (lowMask bits) := by
  unfold mask
  split
  · rename_i h
    rw [lowMask, Nat.min_eq_right h]
    rfl
  · rename_i h
    have hlt : bits < 64 := by omega
    have hpow : capacity bits < capacity 64 := Nat.pow_lt_pow_right (by decide) hlt
    have hone : ((1 : UInt64) <<< UInt64.ofNat bits).toNat = capacity bits := by
      rw [toNat_shiftLeft_ofNat hlt, UInt64.toNat_one, Nat.one_mul, Nat.mod_eq_of_lt hpow]
    have hle : (1 : UInt64) ≤ 1 <<< UInt64.ofNat bits := by
      rw [UInt64.le_iff_toNat_le, hone]
      exact capacity_pos bits
    simp only [shiftLeft, hlt, if_true, bind, Except.bind, subtract, hle, Except.ok.injEq]
    rw [← UInt64.toNat_inj, UInt64.toNat_sub_of_le _ _ hle, hone, toNat_lowMask, Nat.min_eq_left (by omega)]
    rfl

/-- A balanced remainder by an even number, scaled. -/
theorem bmod_mul_mul (v : Int) {half factor : Nat} (hh : 0 < half) (hf : 0 < factor) :
    Int.bmod (v * factor) (2 * half * factor) = Int.bmod v (2 * half) * factor := by
  have hle : -(half : Int) ≤ Int.bmod v (2 * half) := by
    have := Int.le_bmod (x := v) (m := 2 * half) (by omega)
    omega
  have hlt : Int.bmod v (2 * half) < half := by
    have := Int.bmod_lt (x := v) (m := 2 * half) (by omega)
    omega
  have hf' : (0 : Int) < factor := by omega
  have hlow : -((half * factor : Nat) : Int) ≤ Int.bmod v (2 * half) * factor := by
    rw [Int.natCast_mul, ← Int.neg_mul]
    exact Int.mul_le_mul_of_nonneg_right hle (Int.le_of_lt hf')
  have hhigh : Int.bmod v (2 * half) * factor < ((half * factor : Nat) : Int) := by
    rw [Int.natCast_mul]
    exact Int.mul_lt_mul_of_pos_right hlt hf'
  rw [Int.bmod_eq_iff (Nat.mul_pos (by omega) hf), Nat.mul_assoc]
  refine ⟨by omega, by omega, ?_⟩
  rw [← Nat.mul_assoc, Int.natCast_mul, ← Int.sub_mul]
  exact Int.mul_dvd_mul Int.dvd_bmod_sub_self (Int.dvd_refl _)

/-- Shifting up is scaling, and shifting back undoes it with the sign. -/
theorem sshiftRight_shiftLeft {width : Nat} (h : 1 ≤ width) (hle : width ≤ 64) (w : UInt64) :
    ((w <<< UInt64.ofNat (64 - width)).toBitVec.sshiftRight (64 - width)).toInt = signed width w := by
  obtain ⟨n, rfl⟩ := Nat.exists_eq_add_of_le' h
  have htop : capacity (n + 1) = 2 * capacity n := Nat.pow_succ'
  have hsize : capacity 64 = 2 * capacity n * capacity (64 - (n + 1)) := by
    rw [← htop, capacity, capacity, capacity, Nat.pow_eq, Nat.pow_eq, Nat.pow_eq, ← Nat.pow_add, Nat.add_sub_of_le hle]
  have hup : (w <<< UInt64.ofNat (64 - (n + 1))).toBitVec.toInt =
      signed (n + 1) w * (capacity (64 - (n + 1)) : Int) := by
    have hbits : (w <<< UInt64.ofNat (64 - (n + 1))).toBitVec.toInt =
        Int.bmod ((w <<< UInt64.ofNat (64 - (n + 1))).toNat : Int) (capacity 64) := BitVec.toInt_eq_toNat_bmod _
    rw [hbits, toNat_shiftLeft_ofNat (by omega), Int.natCast_emod, Int.emod_bmod, hsize, Int.natCast_mul,
      bmod_mul_mul _ (capacity_pos n) (capacity_pos _), ← htop]
    rfl
  rw [BitVec.toInt_sshiftRight, hup, Int.shiftRight_eq_div_pow]
  exact Int.mul_ediv_cancel _ (Int.natCast_ne_zero.mpr (Nat.ne_of_gt (capacity_pos _)))

theorem signExtend_eq {width : Nat} (h : 1 ≤ width) (hle : width ≤ 64) (w : UInt64) :
    signExtend w width = .ok (signed width w) := by
  unfold signExtend
  split
  · have hwidth : width = 64 := by omega
    subst hwidth
    rw [Except.ok.injEq]
    exact BitVec.toInt_eq_toNat_bmod _
  · have hlt : 64 - width < 64 := by omega
    simp only [shiftLeft, hlt, if_true, bind, Except.bind, sshiftRight_shiftLeft h hle]

example : signExtend 0xfe 8 = .ok (-2) := by decide

theorem bitsOf_eq {bytes : Nat} (h : bytes ≤ 8) : bitsOf bytes = .ok (8 * bytes) := by
  have hsize : UInt32.size = 4294967296 := rfl
  exact if_pos (by omega)

theorem remainder_eq {n : Nat} (h : 0 < n) (w : UInt64) : remainder w n = .ok (w.toNat % n) := if_neg (by omega)

/-! ## Offsets -/

def highest (s : Space) : Checked UInt64 :=
  if 8 ≤ s.addressSize then .ok (UInt64.ofNat (UInt64.size - 1))
  else do
    let bits ← bitsOf s.addressSize
    let next ← shiftLeft 1 bits
    subtract next 1

def wrap (s : Space) (offset : UInt64) : Checked UInt64 := do
  let last ← highest s
  return offset &&& last

/-- The address of an offset, which is wrapped. -/
def address (s : Space) (offset : UInt64) : Checked Address := do
  let _ ← wrap s offset
  return s.address offset

theorem highest_eq (s : Space) : highest s = .ok s.highest := by
  unfold highest
  split
  · rename_i h
    rw [Space.highest, lowMask, Nat.min_eq_right (by omega)]
    rfl
  · rename_i h
    have hmask := mask_eq (8 * s.addressSize)
    rw [mask, if_neg (by omega)] at hmask
    rw [bitsOf_eq (by omega)]
    exact hmask

theorem wrap_eq (s : Space) (offset : UInt64) : wrap s offset = .ok (s.wrap offset) := by
  rw [wrap, highest_eq]
  rfl

theorem address_eq (s : Space) (offset : UInt64) : address s offset = .ok (s.address offset) := by
  rw [address, wrap_eq]
  rfl

end Checked

end Lifter
