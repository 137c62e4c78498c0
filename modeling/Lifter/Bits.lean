/-
  Lifter.Bits — words of at most 64 bits.

  How many values so many bits have, the mask of the low bits, the word that a run of
  bytes spells in either byte order, and the signed number that bits stand for in two's
  complement.
-/

namespace Lifter

/-- How many values `bits` bits can have. -/
def capacity (bits : Nat) : Nat := Nat.pow 2 bits

/-- The low `bits` bits set, all 64 of them at most. -/
def lowMask (bits : Nat) : UInt64 := UInt64.ofNat (capacity (min bits 64) - 1)

/-- The value of bytes that are written most significant first. -/
def bigEndianWord (bytes : List UInt8) : UInt64 :=
  bytes.foldl (fun word b => (word <<< 8) ||| b.toUInt64) 0

def word (bigEndian : Bool) (bytes : List UInt8) : UInt64 :=
  bigEndianWord (if bigEndian then bytes else bytes.reverse)

theorem bigEndianWord_concat (bytes : List UInt8) (b : UInt8) :
    bigEndianWord (bytes ++ [b]) = (bigEndianWord bytes <<< 8) ||| b.toUInt64 := by
  simp only [bigEndianWord, List.foldl_append, List.foldl_cons, List.foldl_nil]

/-- The number with these two's complement bits, of which `width` count. -/
def signed (width : Nat) (bits : UInt64) : Int := Int.bmod bits.toNat (capacity width)

/-- A word and a number are added modulo the number of words. -/
theorem toNat_add_ofNat (w : UInt64) (k : Nat) : (w + UInt64.ofNat k).toNat = (w.toNat + k) % UInt64.size := by
  rw [UInt64.toNat_add, UInt64.toNat_ofNat', Nat.add_mod_mod]

/-- A word is shifted by as much as it is told to, if that is less than its width. -/
theorem toNat_shiftCount {n : Nat} (h : n < 64) : (UInt64.ofNat n).toNat % 64 = n := by
  rw [UInt64.toNat_ofNat']
  omega

theorem toNat_ofInt (n : Int) : ((UInt64.ofInt n).toNat : Int) = n % (UInt64.size : Nat) := by
  have hsize : UInt64.size = 18446744073709551616 := rfl
  rw [UInt64.ofInt, UInt64.toNat_ofNat', hsize]
  omega

/-- What is greater than something is one more than what comes before it. -/
theorem toNat_sub_one {a b : UInt64} (h : a < b) : (b - 1).toNat + 1 = b.toNat := by
  have hpos := Nat.zero_lt_of_lt (UInt64.lt_iff_toNat_lt.mp h)
  have hsub : (b - 1).toNat = b.toNat - 1 := UInt64.toNat_sub_of_le _ _ (UInt64.le_iff_toNat_le.mpr hpos)
  omega

/-! ## Masks -/

theorem capacity_pos (bits : Nat) : 0 < capacity bits := Nat.two_pow_pos bits

theorem capacity_dvd {m n : Nat} (h : m ≤ n) : capacity m ∣ capacity n := Nat.pow_dvd_pow 2 h

theorem capacity_mono {m n : Nat} (h : m ≤ n) : capacity m ≤ capacity n := Nat.pow_le_pow_right (by decide) h

theorem capacity_le_size {bits : Nat} (h : bits ≤ 64) : capacity bits ≤ UInt64.size := capacity_mono h

theorem toNat_lowMask (bits : Nat) : (lowMask bits).toNat = capacity (min bits 64) - 1 := by
  have h := capacity_le_size (Nat.min_le_right bits 64)
  have h1 := capacity_pos (min bits 64)
  rw [lowMask, UInt64.toNat_ofNat']
  exact Nat.mod_eq_of_lt (by change capacity (min bits 64) ≤ 18446744073709551616 at h; omega)

/-- Masking takes a word modulo the capacity of the mask. -/
theorem toNat_and_lowMask (w : UInt64) (bits : Nat) :
    (w &&& lowMask bits).toNat = w.toNat % capacity (min bits 64) := by
  rw [UInt64.toNat_and, toNat_lowMask]
  exact Nat.and_two_pow_sub_one_eq_mod _ _

theorem and_lowMask_le (w : UInt64) (bits : Nat) : w &&& lowMask bits ≤ lowMask bits := by
  rw [UInt64.le_iff_toNat_le, UInt64.toNat_and]
  exact Nat.and_le_right

theorem and_lowMask_of_le {w : UInt64} {bits : Nat} (h : w ≤ lowMask bits) : w &&& lowMask bits = w := by
  apply UInt64.toNat_inj.mp
  have h1 := capacity_pos (min bits 64)
  rw [UInt64.le_iff_toNat_le, toNat_lowMask] at h
  rw [toNat_and_lowMask, Nat.mod_eq_of_lt (by omega)]

/-- A number is cut off modulo the capacity of the mask. -/
theorem toNat_ofInt_and_lowMask {bits : Nat} (h : bits ≤ 64) (n : Int) :
    ((UInt64.ofInt n &&& lowMask bits).toNat : Int) = n % (capacity bits : Nat) := by
  have hdvd : capacity bits ∣ UInt64.size := capacity_dvd h
  rw [toNat_and_lowMask, Nat.min_eq_left h, Int.natCast_emod, toNat_ofInt]
  exact Int.emod_emod_of_dvd n (Int.natCast_dvd_natCast.mpr hdvd)

/-! ## Two's complement -/

/-- Half of the numbers that so many bits have are negative. -/
theorem signed_bounds {width : Nat} (h : 1 ≤ width) (bits : UInt64) :
    -(capacity width : Int) ≤ signed width bits * 2 ∧ signed width bits * 2 < capacity width := by
  obtain ⟨n, rfl⟩ := Nat.exists_eq_add_of_le' h
  have heven : capacity (n + 1) = 2 * capacity n := Nat.pow_succ'
  have hpos := capacity_pos (n + 1)
  have hle := Int.le_bmod (x := bits.toNat) hpos
  have hlt := Int.bmod_lt (x := bits.toNat) hpos
  rw [signed]
  omega

/-- A number that fits is what its low bits stand for. -/
theorem signed_of_emod {width : Nat} {bits : UInt64} {n : Int} (h : (bits.toNat : Int) = n % (capacity width : Nat))
    (hle : -(capacity width : Int) ≤ n * 2) (hlt : n * 2 < capacity width) : signed width bits = n := by
  rw [signed, h, Int.emod_bmod]
  exact Int.bmod_eq_of_le_mul_two hle hlt

end Lifter
